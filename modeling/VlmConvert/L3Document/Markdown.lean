import VlmConvert.L2Table.TextTable
import VlmConvert.L3Document.Document

/-!
# Markdown pages

`map_markdown` of `src/mapping/markdown.cpp` reads a page line by line: fenced
code, headings, runs of lines that start with `|`, list items, and paragraphs
of what is left. A pipe table takes the whole run, and its second line is the
separator if it looks like one.

`isspace` and `isdigit` are those of the "C" locale; the document is the
caller's fresh one.

Results:

* `splitPipeRow_renderRow`: a rendered row splits into its cells, whatever
  bytes they hold.
* `mapMarkdown_pipe_table`: a rendered table comes back as one table item with
  the same cells.
-/
namespace VlmConvert.L3.Markdown

open Bytes L2

/-! ## Pipe tables -/

/-- A separator row: `| --- | :---: | --- |`.
mirrors src/mapping/markdown.cpp:11-22 -/
def isSeparatorRow (line : Bytes) : Bool :=
  line.all (fun c => c == 0x2D || c == 0x7C || c == 0x3A || c == 0x20 || c == 0x09) &&
    line.contains 0x2D

/-- The cells of what is left of a row: `cell` is the text of the open cell,
`closed` whether the last byte was a column boundary.
mirrors src/mapping/markdown.cpp:31-51 -/
def splitCells (cell : Bytes) (closed : Bool) : Bytes → List Bytes
  | [] => if closed then [] else [trim cell]
  | 0x5C :: 0x7C :: row => splitCells (cell ++ [0x7C]) false row
  | c :: row =>
    if c = 0x7C then trim cell :: splitCells [] true row else splitCells (cell ++ [c]) false row

/-- mirrors src/mapping/markdown.cpp:24-52 -/
def splitPipeRow (line : Bytes) : List Bytes :=
  let row := trim line
  splitCells [] false (if row.head? = some 0x7C then row.drop 1 else row)

/-! ## Lines -/

/-- The lines of a text; a carriage return at the end of one comes off.
mirrors src/mapping/markdown.cpp:81-94 -/
def linesOf (text : Bytes) : List Bytes :=
  (text.splitOn 0x0A).map fun line => if line.getLast? = some 0x0D then line.dropLast else line

def startsFence (line : Bytes) : Bool := (ascii "```").isPrefixOf (trim line)

def startsPipe (line : Bytes) : Bool := (trim line).head? == some 0x7C

/-- Level and text of an ATX heading. A closing run of `#` behind a blank
comes off, and so does a text of `#` only.
mirrors src/mapping/markdown.cpp:127-149 -/
def headingOf (stripped : Bytes) : Option (Nat × Bytes) :=
  let hashes := (stripped.takeWhile (· == 0x23)).length
  if 1 ≤ hashes ∧ hashes ≤ 6 ∧ (stripped.drop hashes).head?.any isSpace then
    let heading := trim (stripped.drop hashes)
    let kept := heading.rdropWhile (· == 0x23)
    some (hashes,
      if kept.length < heading.length ∧ (kept.getLast? = some 0x20 ∨ kept.getLast? = some 0x09) then
        trim kept.dropLast
      else if kept.isEmpty then [] else heading)
  else none

/-- Text, enumeration and marker of a list item.
mirrors src/mapping/markdown.cpp:165-190 -/
def listItemOf (stripped : Bytes) : Option (Bytes × Bool × Bytes) :=
  let bulleted := match stripped with
    | c :: d :: _ :: _ => (c == 0x2D || c == 0x2A || c == 0x2B) && isSpace d
    | _ => false
  let numberEnd := (stripped.takeWhile isDigit).length
  let enumerated := 0 < numberEnd && match stripped.drop numberEnd with
    | c :: d :: _ => (c == 0x2E || c == 0x29) && isSpace d
    | _ => false
  if bulleted || enumerated then
    let markerEnd := if bulleted then 1 else numberEnd + 1
    some (trim (stripped.drop markerEnd), enumerated, stripped.take markerEnd)
  else none

/-! ## The line loop -/

structure Reader where
  doc : Document := {}
  items : Nat := 0
  paragraph : Bytes := []
  warnings : Option (List PageWarning) := none

section Loop
variable (page : PageContext)

/-- mirrors src/mapping/builder.h:37-39 -/
def pageProv : ProvenanceItem := makeProv page (fullPageBox page)

/-- mirrors src/mapping/markdown.cpp:54-69 -/
def emitPipeTable (lines : List Bytes) (doc : Document) (warnings : Option (List PageWarning)) :
    Document × Option (List PageWarning) :=
  let ref := bodyChildRef ⟨.table, doc.tables.length⟩
  let headerRows := if lines[1]?.any isSeparatorRow then 1 else 0
  let rows := (if headerRows = 1 then lines.eraseIdx 1 else lines).map splitPipeRow
  let (data, cut) := fillTableData rows headerRows
  (doc.addTables { newTable page (pageProv page) with data := some data },
    noteTableCut cut data (ascii "table") ref warnings)

/-- mirrors src/mapping/markdown.cpp:98-105 -/
def Reader.flushParagraph (r : Reader) : Reader :=
  let body := trim r.paragraph
  if body.isEmpty then { r with paragraph := [] }
  else { r with
    doc := addText r.doc page (pageProv page) body .paragraph
    items := r.items + 1
    paragraph := [] }

/-- The line loop, each run of lines at once; every item first ends the
paragraph before it.
mirrors src/mapping/markdown.cpp:107-192 -/
def Reader.read (r : Reader) : List Bytes → Reader
  | [] => r.flushParagraph page
  | line :: rest =>
    let stripped := trim line
    let flushed := r.flushParagraph page
    if startsFence line then
      -- an open fence takes every line up to the end of the page
      let code := (rest.takeWhile fun line => !startsFence line).flatMap (· ++ [0x0A])
      Reader.read { flushed with
        doc := addCode flushed.doc page (pageProv page) code.dropLast (trim (stripped.drop 3)) none
        items := flushed.items + 1 } ((rest.dropWhile fun line => !startsFence line).drop 1)
    else match headingOf stripped with
    | some (level, heading) =>
      Reader.read { flushed with
        doc := addSectionHeader flushed.doc page (pageProv page) heading level
        items := flushed.items + 1 } rest
    | none =>
      if startsPipe line then
        let (doc, warnings) :=
          emitPipeTable page (line :: rest.takeWhile startsPipe) flushed.doc flushed.warnings
        Reader.read { flushed with doc := doc, items := flushed.items + 1, warnings := warnings }
          (rest.dropWhile startsPipe)
      else match listItemOf stripped with
      | some (body, enumerated, marker) =>
        Reader.read { flushed with
          doc := addListItem flushed.doc page (pageProv page) body enumerated marker
          items := flushed.items + 1 } rest
      | none =>
        if stripped.isEmpty then Reader.read flushed rest
        else Reader.read { r with paragraph := r.paragraph ++ (stripped ++ [0x0A]) } rest
termination_by lines => lines.length
decreasing_by
  all_goals
    have h1 := (rest.dropWhile_suffix fun line => !startsFence line).length_le
    have h2 := (rest.dropWhile_suffix startsPipe).length_le
    simp only [List.length_cons, List.length_drop]
    omega

/-- Texts, pictures and tables in the order of their lists.
mirrors src/mapping/builder.h:415-427 -/
def bodyOrder (doc : Document) : List BodyChild :=
  (List.range doc.texts.length).map (⟨.text, ·⟩) ++
    (List.range doc.pictures.length).map (⟨.picture, ·⟩) ++
    (List.range doc.tables.length).map (⟨.table, ·⟩)

/-- mirrors src/mapping/markdown.cpp:73-200 -/
def mapMarkdown (text : Bytes) (warnings : Option (List PageWarning)) :
    Except Bytes (Document × Option (List PageWarning)) :=
  if (trim text).isEmpty then .error (ascii "empty markdown response")
  else
    let r := Reader.read page { warnings := warnings } (linesOf text)
    if r.items = 0 then .error (ascii "markdown response produced no document items")
    else .ok (finalizeDocument r.doc page (bodyOrder r.doc), r.warnings)

end Loop

/-! ## Rows as they are written -/

/-- A pipe of a cell is written `\|`. -/
def escapePipe (c : UInt8) : Bytes := if c = 0x7C then [0x5C, 0x7C] else [c]

def renderCell (text : Bytes) : Bytes := 0x20 :: (text.flatMap escapePipe ++ [0x20, 0x7C])

/-- `| c1 | ... | cn |` -/
def renderRow (row : List Bytes) : Bytes := 0x7C :: row.flatMap renderCell

section Row
variable {cell row : Bytes} {closed : Bool} {c : UInt8}

theorem splitCells_pipe :
    splitCells cell closed (0x7C :: row) = trim cell :: splitCells [] true row := by
  rw [splitCells, if_pos rfl]
  intro row h
  cases h

theorem splitCells_escaped :
    splitCells cell closed (0x5C :: 0x7C :: row) = splitCells (cell ++ [0x7C]) false row := by
  rw [splitCells]

/-- Any other byte is text; a backslash is one unless a pipe follows it. -/
theorem splitCells_byte (hc : c ≠ 0x7C) (hrow : c = 0x5C → row.head? ≠ some 0x7C) :
    splitCells cell closed (c :: row) = splitCells (cell ++ [c]) false row := by
  rw [splitCells, if_neg hc]
  rintro rest hc rfl
  exact hrow hc rfl

/-- No cell is written with a pipe in front. -/
theorem head?_escapePipe (text : Bytes) :
    (text.flatMap escapePipe ++ 0x20 :: row).head? ≠ some 0x7C := by
  cases text with
  | nil => simp
  | cons c text =>
    rw [List.flatMap_cons, escapePipe]
    split
    · simp
    · rename_i hc
      simpa using hc

/-- The written form of a text is read back byte by byte. -/
theorem splitCells_text (text : Bytes) : ∀ (cell : Bytes) (closed : Bool),
    splitCells cell closed (text.flatMap escapePipe ++ 0x20 :: row) =
      splitCells (cell ++ (text ++ [0x20])) false row := by
  induction text with
  | nil =>
    intro cell closed
    exact splitCells_byte (by decide) (by simp)
  | cons c text ih =>
    intro cell closed
    have hnext : cell ++ (c :: text ++ [0x20]) = cell ++ [c] ++ (text ++ [0x20]) := by simp
    rw [List.flatMap_cons, List.append_assoc, escapePipe, hnext]
    split
    · rename_i hc
      rw [hc, ← ih]
      exact splitCells_escaped
    · rename_i hc
      rw [← ih]
      exact splitCells_byte hc fun _ => head?_escapePipe text

theorem splitCells_cell {text : Bytes} (h : trim text = text) :
    splitCells [] closed (renderCell text ++ row) = text :: splitCells [] true row := by
  have htrim : trim (0x20 :: (text ++ [0x20])) = text := by
    rw [trim_cons rfl, trim_concat rfl, h]
  rw [renderCell, List.cons_append, List.append_assoc]
  rw [splitCells_byte (by decide) (by simp)]
  refine (splitCells_text text [0x20] false).trans (splitCells_pipe.trans ?_)
  exact congrArg (· :: splitCells [] true row) htrim

theorem splitCells_cells : ∀ {cells : List Bytes}, (∀ text ∈ cells, trim text = text) →
    splitCells [] true (cells.flatMap renderCell) = cells := by
  intro cells
  induction cells with
  | nil => intro _; rfl
  | cons text cells ih =>
    intro h
    rw [List.flatMap_cons, splitCells_cell (h text List.mem_cons_self),
      ih fun x hx => h x (List.mem_cons_of_mem text hx)]

end Row

section Rendered
variable (row : List Bytes)

theorem renderRow_ends : ∃ init, renderRow row = init ++ [0x7C] := by
  rcases List.eq_nil_or_concat row with rfl | ⟨cells, text, rfl⟩
  · exact ⟨[], rfl⟩
  · refine ⟨0x7C :: (cells.flatMap renderCell ++ (0x20 :: (text.flatMap escapePipe ++ [0x20]))), ?_⟩
    simp [renderRow, renderCell]

theorem trim_renderRow : trim (renderRow row) = renderRow row := by
  obtain ⟨init, hinit⟩ := renderRow_ends row
  exact trim_eq rfl hinit rfl rfl

theorem newline_notMem_renderRow (h : ∀ text ∈ row, 0x0A ∉ text) : 0x0A ∉ renderRow row := by
  intro hmem
  rcases List.mem_cons.1 hmem with hpipe | hmem
  · cases hpipe
  · obtain ⟨text, htext, hmem⟩ := List.mem_flatMap.1 hmem
    simp only [renderCell, List.mem_cons, List.mem_append, List.mem_flatMap, List.not_mem_nil,
      or_false] at hmem
    rcases hmem with hmem | ⟨c, hc, hmem⟩ | hmem | hmem
    · cases hmem
    · rw [escapePipe] at hmem
      split at hmem
      · simp at hmem
      · exact h text htext (List.mem_singleton.1 hmem ▸ hc)
    · cases hmem
    · cases hmem

/-- **A row round trip.** The cells may hold any bytes: pipes, backslashes
before pipes and at the end of a cell, or nothing at all. -/
theorem splitPipeRow_renderRow (hne : row ≠ []) (h : ∀ text ∈ row, trim text = text) :
    splitPipeRow (renderRow row) = row := by
  obtain ⟨text, cells, rfl⟩ := List.exists_cons_of_ne_nil hne
  have hrest := splitCells_cells fun x hx => h x (List.mem_cons_of_mem text hx)
  simp only [splitPipeRow, trim_renderRow]
  refine (splitCells_cell (h text List.mem_cons_self)).trans ?_
  exact congrArg (text :: ·) hrest

example : splitPipeRow (ascii "| a \\| b | c |") = [ascii "a | b", ascii "c"] := by decide

end Rendered

/-! ## Tables as they are written -/

/-- A header row and body rows of trimmed cells without newlines, within the
table caps. -/
structure PipeTable where
  header : List Bytes
  body : List (List Bytes)
  nonempty : ∀ row ∈ header :: body, row ≠ []
  plain : ∀ row ∈ header :: body, ∀ text ∈ row, 0x0A ∉ text ∧ trim text = text
  caps : (header :: body).length ≤ kMaxTableRows ∧ widest (header :: body) ≤ kMaxTableCols ∧
    (header :: body).length * widest (header :: body) ≤ kMaxTableCells

namespace PipeTable
variable (t : PipeTable)

def rows : List (List Bytes) := t.header :: t.body

def separator : Bytes := renderRow (t.header.map fun _ => ascii "---")

def lines : List Bytes := renderRow t.header :: t.separator :: t.body.map renderRow

def render : Bytes := [0x0A].intercalate t.lines

/-- The cells in reading order, those of the header row flagged. -/
def cells : List TableCell :=
  t.rows.zipIdx.flatMap fun row => row.1.zipIdx.map fun cell =>
    ⟨cell.1, decide (row.2 = 0), false, false, 1, 1, row.2, row.2 + 1, cell.2, cell.2 + 1⟩

/-- Every line is a row of newline-free cells. -/
theorem lines_rendered :
    ∀ line ∈ t.lines, ∃ row, line = renderRow row ∧ ∀ text ∈ row, 0x0A ∉ text := by
  intro line hline
  simp only [lines, List.mem_cons, List.mem_map] at hline
  rcases hline with rfl | rfl | ⟨row, hrow, rfl⟩
  · exact ⟨t.header, rfl, fun text htext => (t.plain _ List.mem_cons_self text htext).1⟩
  · refine ⟨_, rfl, fun text htext => ?_⟩
    obtain ⟨-, -, rfl⟩ := List.mem_map.1 htext
    decide
  · exact ⟨row, rfl, fun text htext => (t.plain row (List.mem_cons_of_mem _ hrow) text htext).1⟩

theorem linesOf_render : linesOf t.render = t.lines := by
  have hfree : ∀ line ∈ t.lines, 0x0A ∉ line := by
    intro line hline
    obtain ⟨row, rfl, hrow⟩ := t.lines_rendered line hline
    exact newline_notMem_renderRow row hrow
  rw [linesOf, render, List.splitOn_intercalate 0x0A hfree (List.cons_ne_nil _ _)]
  refine (List.map_congr_left fun line hline => ?_).trans (List.map_id _)
  obtain ⟨row, rfl, -⟩ := t.lines_rendered line hline
  obtain ⟨init, hinit⟩ := renderRow_ends row
  rw [if_neg (by simp [hinit])]
  rfl

theorem isSeparatorRow_separator : isSeparatorRow t.separator = true := by
  obtain ⟨text, cells, hheader⟩ :=
    List.exists_cons_of_ne_nil (t.nonempty t.header List.mem_cons_self)
  rw [isSeparatorRow, Bool.and_eq_true, separator, renderRow, List.flatMap_map]
  constructor
  · rw [List.all_cons, List.all_flatMap]
    exact Bool.and_eq_true_iff.2 ⟨rfl, List.all_eq_true.2 fun _ _ => rfl⟩
  · rw [hheader]
    simp [renderCell, ascii, escapePipe]

theorem lines_start : ∀ line ∈ t.lines, startsPipe line = true := by
  intro line hline
  obtain ⟨row, rfl, -⟩ := t.lines_rendered line hline
  rw [startsPipe, trim_renderRow]
  rfl

/-- The rows come back as they were. -/
theorem splitPipeRow_rows : (t.lines.eraseIdx 1).map splitPipeRow = t.rows := by
  have hrow : ∀ row ∈ t.header :: t.body, splitPipeRow (renderRow row) = row := fun row hrow =>
    splitPipeRow_renderRow row (t.nonempty row hrow) fun text htext =>
      (t.plain row hrow text htext).2
  have herase : t.lines.eraseIdx 1 = t.rows.map renderRow := rfl
  rw [herase, List.map_map]
  exact (List.map_congr_left hrow).trans (List.map_id _)

/-- What the table run emits. -/
theorem emitPipeTable_lines (page : PageContext) (warnings : Option (List PageWarning)) :
    ∃ data, data.tableCells = t.cells ∧ emitPipeTable page t.lines {} warnings =
      (({} : Document).addTables { newTable page (pageProv page) with data := some data },
        warnings) := by
  obtain ⟨h1, h2, h3⟩ := t.caps
  obtain ⟨hcells, hcut⟩ := fillTableData_whole 1 h1 h2 h3
  have hsep : t.lines[1]?.any isSeparatorRow = true := t.isSeparatorRow_separator
  refine ⟨(fillTableData t.rows 1).1, ?_, ?_⟩
  · refine hcells.trans ?_
    simp only [cells, rows, Nat.lt_one_iff]
  · simp only [emitPipeTable, hsep, if_true, t.splitPipeRow_rows]
    have hnote : noteTableCut (fillTableData t.rows 1).2 (fillTableData t.rows 1).1 (ascii "table")
        (bodyChildRef ⟨.table, ({} : Document).tables.length⟩) warnings = warnings := by
      rw [rows, hcut]
      rfl
    rw [hnote]

/-- A page of table lines is one table. -/
theorem read_lines (page : PageContext) (warnings : Option (List PageWarning)) :
    Reader.read page { warnings := warnings } t.lines =
      { doc := (emitPipeTable page t.lines {} warnings).1
        items := 1
        warnings := (emitPipeTable page t.lines {} warnings).2 } := by
  have hall : ∀ line ∈ t.separator :: t.body.map renderRow, startsPipe line = true :=
    fun line hline => t.lines_start line (List.mem_cons_of_mem _ hline)
  have hfence : startsFence (renderRow t.header) = false := by
    rw [startsFence, trim_renderRow]
    rfl
  have hheading : headingOf (trim (renderRow t.header)) = none := by
    rw [trim_renderRow]
    rfl
  have hpipe : startsPipe (renderRow t.header) = true := t.lines_start _ List.mem_cons_self
  rw [lines, Reader.read]
  simp only [hfence, hheading, hpipe, Bool.false_eq_true, if_true, if_false,
    List.takeWhile_eq_self_iff.2 hall, List.dropWhile_eq_nil_iff.2 hall]
  rw [Reader.read]
  rfl

end PipeTable

/-- **Pipe tables round trip.** A rendered table maps to one item, a table with
the given cells in their places. -/
theorem mapMarkdown_pipe_table (page : PageContext) (warnings : Option (List PageWarning))
    (t : PipeTable) :
    ∃ doc table data, mapMarkdown page t.render warnings = .ok (doc, warnings) ∧
      doc.tables = [table] ∧ doc.texts = [] ∧ doc.pictures = [] ∧ doc.groups = [] ∧
      doc.keyValueItems = [] ∧ doc.fieldRegions = [] ∧
        doc.body.children = [bodyChildRef ⟨.table, 0⟩] ∧
      table.data = some data ∧ data.tableCells = t.cells := by
  obtain ⟨data, hcells, hemit⟩ := t.emitPipeTable_lines page warnings
  have hvisible : (trim t.render).isEmpty = false := by
    obtain ⟨tail, htail⟩ : ∃ tail, t.render = 0x7C :: tail := ⟨_, rfl⟩
    cases htrim : trim t.render with
    | nil =>
      have hnone := visible_trim t.render
      rw [htrim, htail] at hnone
      cases hnone
    | cons => rfl
  have hread := t.read_lines page warnings
  rw [hemit] at hread
  refine ⟨finalizeDocument
    (({} : Document).addTables { newTable page (pageProv page) with data := some data })
    page [⟨.table, 0⟩], _, data, ?_, rfl, rfl, rfl, rfl, rfl, rfl, rfl, rfl, hcells⟩
  simp only [mapMarkdown, hvisible, t.linesOf_render, hread]
  rfl

/-- Escaped pipes, a backslash before a pipe and at the end of a cell, empty
first and last cells, and a body row that looks like a separator. -/
def samplePipes : PipeTable where
  header := [[], ascii "a|b", ascii "c\\|", []]
  body := [[ascii "---", ascii ":-:"], [[]], [ascii "# d", ascii "e\\", []]]
  nonempty := by decide
  plain := by decide
  caps := by decide

theorem mapMarkdown_pipe_table_sample :
    samplePipes.render = ascii
      "|  | a\\|b | c\\\\| |  |\n| --- | --- | --- | --- |\n| --- | :-: |\n|  |\n| # d | e\\ |  |" ∧
    ∃ doc table data,
      mapMarkdown samplePage samplePipes.render (some []) = .ok (doc, some []) ∧
      doc.tables = [table] ∧ doc.texts = [] ∧ doc.pictures = [] ∧ doc.groups = [] ∧
      doc.keyValueItems = [] ∧ doc.fieldRegions = [] ∧
        doc.body.children = [bodyChildRef ⟨.table, 0⟩] ∧
      table.data = some data ∧ data.tableCells = samplePipes.cells :=
  ⟨by decide, mapMarkdown_pipe_table samplePage (some []) samplePipes⟩

end VlmConvert.L3.Markdown

import VlmConvert.L1Text.Markup
import VlmConvert.L2Table.Table

/-!
# HTML tables

Two readers of an HTML table and the layout both feed:

* `chandraTableCells` (`src/mapping/layout.cpp:147-219`) walks the element
  tree and keeps, per column, the first row that is free (`occupied`);
* `deepseekTableCells` (`src/mapping/deepseek.cpp:218-309`) cuts the first
  `<table>` out of the text, takes the widest row's colspan sum as the
  width and keeps a matrix of the positions that are taken;
* `fillSpanTable` (`src/mapping/layout.cpp:221-279`) turns the cells into
  `TableData`.

`occupied` is a list indexed by column; a column the source's map does not
hold reads 0 here, which is free in every row as well. The element a
`SpanCell` came from is left out (no function here reads it).

Result: `html_readers_agree`, both readers return the rectangles of every
tiling rendered as HTML.
-/
namespace VlmConvert.L2

open Bytes L1

/-- mirrors src/mapping/layout.h:25-35 -/
structure SpanCell where
  row : Nat
  col : Nat
  rowSpan : Nat
  colSpan : Nat
  text : Bytes
  columnHeader : Bool
  rowHeader : Bool
  deriving DecidableEq, Repr

/-! ## Text of an element -/

/-- The ballot box of a checkbox or radio button, else the input's value.
mirrors src/mapping/layout.cpp:67-77 -/
def inputText (node : MarkupNode) : Bytes :=
  let type := (node.attr (ascii "type") []).map toLower
  if type == ascii "checkbox" || type == ascii "radio" then
    if node.hasAttr (ascii "checked") then [0xE2, 0x98, 0x91] else [0xE2, 0x98, 0x90]
  else node.attr (ascii "value") []

mutual
/-- mirrors src/mapping/layout.cpp:58-84 -/
def htmlText : MarkupNode → Bytes
  | .text t => t
  | .element tag attrs children =>
    if tag == ascii "br" then [0x0A]
    else if tag == ascii "input" then inputText (.element tag attrs children)
    else htmlTextIn children
def htmlTextIn : List MarkupNode → Bytes
  | [] => []
  | child :: rest =>
    htmlText child ++
      (if !child.isText && decide (child.tag ∈ kHtmlBlockTags) then [0x0A] else []) ++
      htmlTextIn rest
end

/-- `pending` is whether a blank stands between the last character and the
next one.
mirrors src/mapping/layout.cpp:116-131 -/
def collapseWhitespace (text : Bytes) : Bytes :=
  (text.foldl (fun (s : Bytes × Bool) c =>
    if isSpace c then (s.1, !s.1.isEmpty)
    else (s.1 ++ (if s.2 then [0x20, c] else [c]), false)) ([], false)).1

mutual
/-- mirrors src/mapping/deepseek.cpp:173-181 -/
def rawText : MarkupNode → Bytes
  | .text t => t
  | .element _ _ children => rawTextIn children
def rawTextIn : List MarkupNode → Bytes
  | [] => []
  | child :: rest => rawText child ++ rawTextIn rest
end

mutual
/-- The first element named `tag`, depth first.
mirrors src/mapping/layout.cpp:133-145 -/
def findElement (tag : Bytes) : MarkupNode → Option MarkupNode
  | .text _ => none
  | .element _ _ children => findElementIn tag children
def findElementIn (tag : Bytes) : List MarkupNode → Option MarkupNode
  | [] => none
  | .text _ :: rest => findElementIn tag rest
  | .element t attrs children :: rest =>
    if t == tag then some (.element t attrs children)
    else (findElement tag (.element t attrs children)).orElse fun _ => findElementIn tag rest
end

/-! ## Chandra -/

/-- mirrors src/mapping/layout.cpp:88-107 -/
def parseSpan (value : Bytes) (maximum : Nat) : Nat :=
  let l := value.dropWhile isSpace
  let digits := l.takeWhile isDigit
  if digits.isEmpty || !((l.dropWhile isDigit).dropWhile isSpace).isEmpty then 1
  else min maximum (max 1 (digits.foldl (fun n d => min (n * 10 + (d.toNat - 0x30)) (2 ^ 30)) 0))

/-- A row, whether it is in a `thead`, and where its group ends (0: the
table's end). -/
structure ChandraRow where
  node : MarkupNode
  inHeader : Bool
  groupEnd : Nat

def isRow (node : MarkupNode) : Bool := !node.isText && node.tag == ascii "tr"

def isCell (node : MarkupNode) : Bool :=
  !node.isText && (node.tag == ascii "td" || node.tag == ascii "th")

/-- The rows a child of the table adds.
mirrors src/mapping/layout.cpp:153-173 -/
def addRows (rows : List ChandraRow) (child : MarkupNode) : List ChandraRow :=
  if child.isText then rows
  else if child.tag == ascii "tr" then rows ++ [⟨child, false, 0⟩]
  else if child.tag == ascii "thead" || child.tag == ascii "tbody" ||
    child.tag == ascii "tfoot" then
    let group := child.children.filter isRow
    rows ++ group.map fun row => ⟨row, child.tag == ascii "thead", rows.length + group.length⟩
  else rows

def chandraRows (table : MarkupNode) : List ChandraRow := table.children.foldl addRows []

/-- `occupied[c] = max(occupied[c], until)` for the columns of a cell. -/
def occupy (occupied : List Nat) (col colSpan until_ : Nat) : List Nat :=
  (List.range (max occupied.length (col + colSpan))).map fun c =>
    if col ≤ c ∧ c < col + colSpan then max (occupied.getD c 0) until_ else occupied.getD c 0

/-- The cells of a row, from column `col` on.
mirrors src/mapping/layout.cpp:180-216 -/
def chandraCells (rowIndex remaining : Nat) (inHeader : Bool) :
    List MarkupNode → List Nat → Nat → List SpanCell × List Nat
  | [], occupied, _ => ([], occupied)
  | node :: nodes, occupied, col =>
    if !isCell node then chandraCells rowIndex remaining inHeader nodes occupied col
    else
      let colSpan := parseSpan (node.attr (ascii "colspan") (ascii "1")) kMaxTableCells
      let rowSpan := if node.attr (ascii "rowspan") [] == ascii "0" then remaining
        else parseSpan (node.attr (ascii "rowspan") (ascii "1")) remaining
      let col := col +
        ((occupied.drop col).takeWhile fun until_ => decide (rowIndex < until_)).length
      if col + colSpan > kMaxTableCols * 4 then ([], occupied)
      else
        let th := node.tag == ascii "th"
        let cell : SpanCell := {
          row := rowIndex
          col := col
          rowSpan := rowSpan
          colSpan := colSpan
          text := collapseWhitespace (htmlText node)
          columnHeader := node.attr (ascii "scope") [] == ascii "col" ||
            (th && (inHeader || rowIndex == 0))
          rowHeader := node.attr (ascii "scope") [] == ascii "row" ||
            (th && col == 0 && decide (rowIndex > 0) && !inHeader) }
        let r := chandraCells rowIndex remaining inHeader nodes
          (occupy occupied col colSpan (rowIndex + rowSpan)) (col + colSpan)
        (cell :: r.1, r.2)

def chandraFrom (numRows : Nat) : Nat → List ChandraRow → List Nat → List SpanCell
  | _, [], _ => []
  | rowIndex, row :: rows, occupied =>
    let remaining := (if row.groupEnd ≠ 0 then row.groupEnd else numRows) - rowIndex
    let r := chandraCells rowIndex remaining row.inHeader row.node.children occupied 0
    r.1 ++ chandraFrom numRows (rowIndex + 1) rows r.2

/-- mirrors src/mapping/layout.cpp:147-219 -/
def chandraTableCells (table : MarkupNode) : List SpanCell :=
  let rows := chandraRows table
  chandraFrom rows.length 0 rows []

/-! ## DeepSeek -/

/-- `std::from_chars` into a `long long` that must use the whole text. -/
def fromChars (text : Bytes) : Option Int :=
  let negative := text.head? == some 0x2D
  let digits := if negative then text.drop 1 else text
  if digits.isEmpty || !digits.all isDigit then none
  else
    let number : Int := (ofDigits digits : Nat)
    let value := if negative then -number else number
    if -2 ^ 63 ≤ value ∧ value < 2 ^ 63 then some value else none

/-- mirrors src/mapping/deepseek.cpp:196-209 -/
def pythonInt (value : Bytes) : Option Int :=
  let text := stripView value
  if text.isEmpty then none
  else fromChars (if text.head? == some 0x2B then text.drop 1 else text)

/-- The first `<table ...>...</table>`.
mirrors src/mapping/deepseek.cpp:218-239 -/
def tableHtml (content : Bytes) : Option Bytes :=
  match findSub (ascii "<table") (content.map toLower) with
  | none => none
  | some (before, open_) =>
    match findByte 0x3E open_ with
    | none => none
    | some (head, openEnd) =>
      match findSub (ascii "</table>") openEnd with
      | none => none
      | some (body, _) => some ((content.drop before.length).take (head.length + body.length + 8))

mutual
/-- mirrors src/mapping/deepseek.cpp:183-193 -/
def collectRows : MarkupNode → List MarkupNode
  | .text _ => []
  | .element _ _ children => collectRowsIn children
def collectRowsIn : List MarkupNode → List MarkupNode
  | [] => []
  | .text _ :: rest => collectRowsIn rest
  | .element tag attrs children :: rest =>
    (if tag == ascii "tr" then [.element tag attrs children] else []) ++
      collectRows (.element tag attrs children) ++ collectRowsIn rest
end

/-- A cell and its spans. -/
structure RawCell where
  node : MarkupNode
  colSpan : Nat
  rowSpan : Nat

/-- `std::clamp<long long>(span, 1, kMaxTableCells)` -/
def clampSpan (n : Int) : Nat := (min (max n 1) kMaxTableCells).toNat

/-- The cells of a row; `none`: a span that is not an integer.
mirrors src/mapping/deepseek.cpp:251-270 -/
def rawCells : List MarkupNode → Option (List RawCell)
  | [] => some []
  | node :: nodes =>
    if !isCell node then rawCells nodes
    else
      match pythonInt (node.attr (ascii "colspan") (ascii "1")),
        pythonInt (node.attr (ascii "rowspan") (ascii "1")) with
      | some colspan, some rowspan =>
        (rawCells nodes).map fun cells => ⟨node, clampSpan colspan, clampSpan rowspan⟩ :: cells
      | _, _ => none

/-- The positions of a cell become taken. -/
def take (taken : List (List Bool)) (r col rowSpan colSpan : Nat) : List (List Bool) :=
  taken.mapIdx fun rr row => row.mapIdx fun cc old =>
    if r ≤ rr ∧ rr < r + rowSpan ∧ col ≤ cc ∧ cc < col + colSpan then true else old

/-- The cells of row `r`, from column `col` on.
mirrors src/mapping/deepseek.cpp:276-306 -/
def deepseekCells (numRows numCols r : Nat) :
    List RawCell → List (List Bool) → Nat → List SpanCell × List (List Bool)
  | [], taken, _ => ([], taken)
  | raw :: rest, taken, col =>
    let col := col + (((taken.getD r []).drop col).takeWhile id).length
    if col ≥ numCols then ([], taken)
    else
      let th := raw.node.tag == ascii "th"
      let cell : SpanCell := {
        row := r
        col := col
        rowSpan := min raw.rowSpan (numRows - r)
        colSpan := min raw.colSpan (numCols - col)
        text := trim (rawText raw.node)
        columnHeader := th && r == 0
        rowHeader := th && col == 0 }
      let next := deepseekCells numRows numCols r rest (take taken r col raw.rowSpan raw.colSpan)
        (col + raw.colSpan)
      (cell :: next.1, next.2)

def deepseekFrom (numRows numCols : Nat) :
    Nat → List (List RawCell) → List (List Bool) → List SpanCell
  | _, [], _ => []
  | r, cells :: rows, taken =>
    let next := deepseekCells numRows numCols r cells taken 0
    next.1 ++ deepseekFrom numRows numCols (r + 1) rows next.2

/-- mirrors src/mapping/deepseek.cpp:218-309 -/
def deepseekTableCells (content : Bytes) : List SpanCell :=
  match tableHtml content with
  | none => []
  | some html =>
    let rows := collectRows (parseMarkup .html html)
    if rows.isEmpty then []
    else
      match rows.mapM fun row => rawCells row.children with
      | none => []
      | some gridRows =>
        let width := (gridRows.map fun cells => (cells.map RawCell.colSpan).sum).foldl max 0
        let numCols := min width (kMaxTableCols * 4)
        deepseekFrom rows.length numCols 0 gridRows
          (List.replicate rows.length (List.replicate numCols false))

/-! ## The layout -/

/-- The cell as kept: clipped to the kept shape. -/
def keptCell (keptRows keptCols : Nat) (source : SpanCell) : TableCell :=
  let endRow := min (source.row + source.rowSpan) keptRows
  let endCol := min (source.col + source.colSpan) keptCols
  { text := source.text
    columnHeader := source.columnHeader
    rowHeader := source.rowHeader
    rowSection := false
    rowSpan := endRow - source.row
    colSpan := endCol - source.col
    startRow := source.row
    endRow := endRow
    startCol := source.col
    endCol := endCol }

/-- On a fresh `TableData`.
mirrors src/mapping/layout.cpp:221-279 -/
def fillSpanTable (byteSizeLong : TableCell → Nat) (cells : List SpanCell) : TableData × TableCut :=
  let sourceRows := (cells.map fun c => c.row + c.rowSpan).foldl max 0
  let sourceCols := (cells.map fun c => c.col + c.colSpan).foldl max 0
  let kept := keptTableShape sourceRows sourceCols
  let tableCells := (cells.filter fun c => decide (c.row < kept.1 ∧ c.col < kept.2)).map
    (keptCell kept.1 kept.2)
  let fits := gridFits byteSizeLong kept.1 kept.2 0 tableCells
  (⟨kept.1, kept.2, tableCells, if fits then fillGrid kept.1 kept.2 tableCells else []⟩,
    ⟨sourceRows, sourceCols, decide (kept.1 < sourceRows ∨ kept.2 < sourceCols), !fits⟩)

/-! ## Spans read back -/

theorem isDigit_cases {b : UInt8} (h : isDigit b = true) :
    isSpace b = false ∧ b ≠ 0x22 ∧ b ≠ 0x26 ∧ b ≠ 0x2B ∧ b ≠ 0x2D := by
  have hb : 0x30 ≤ b.toNat ∧ b.toNat ≤ 0x39 := by
    simpa [isDigit, UInt8.le_iff_toNat_le] using h
  have hne : ∀ c : UInt8, c.toNat < 0x30 → b ≠ c := by
    intro c hc e; subst e; omega
  refine ⟨?_, hne _ (by decide), hne _ (by decide), hne _ (by decide), hne _ (by decide)⟩
  simp only [isSpace, Bool.or_eq_false_iff, Bool.and_eq_false_iff, beq_eq_false_iff_ne,
    decide_eq_false_iff_not, UInt8.le_iff_toNat_le]
  exact ⟨hne _ (by decide), .inr (by simp; omega)⟩

section Digits
variable {digits : Bytes} (h : ∀ b ∈ digits, isDigit b = true)
include h

theorem dropWhile_space_digits : digits.dropWhile isSpace = digits := by
  rw [List.dropWhile_eq_self_iff]
  intro hpos
  simp [(isDigit_cases (h _ (List.getElem_mem hpos))).1]

theorem rdropWhile_space_digits : digits.rdropWhile isSpace = digits := by
  rw [List.rdropWhile_eq_self_iff]
  intro hne
  simp [(isDigit_cases (h _ (List.getLast_mem hne))).1]

theorem takeWhile_digits : digits.takeWhile isDigit = digits := List.takeWhile_eq_self_iff.2 h

theorem dropWhile_digits : digits.dropWhile isDigit = [] := List.dropWhile_eq_nil_iff.2 h

theorem head?_digits (c : UInt8) (hc : c = 0x2B ∨ c = 0x2D) : (digits.head? == some c) = false := by
  cases digits with
  | nil => rfl
  | cons b rest =>
    have hb := isDigit_cases (h b List.mem_cons_self)
    simp only [List.head?_cons, Option.some_beq_some, beq_eq_false_iff_ne, ne_eq]
    rcases hc with rfl | rfl
    · exact hb.2.2.2.1
    · exact hb.2.2.2.2

omit h in
/-- The saturating sum of `parse_span` is the number while it stays small. -/
theorem foldl_min_eq : ∀ (acc : Nat),
    digits.foldl (fun n d => n * 10 + (d.toNat - 0x30)) acc ≤ 2 ^ 30 →
    digits.foldl (fun n d => min (n * 10 + (d.toNat - 0x30)) (2 ^ 30)) acc =
      digits.foldl (fun n d => n * 10 + (d.toNat - 0x30)) acc := by
  induction digits with
  | nil => intro acc _; rfl
  | cons d digits ih =>
    intro acc hle
    have hmono : ∀ (l : Bytes) (acc : Nat),
        acc ≤ l.foldl (fun n d => n * 10 + (d.toNat - 0x30)) acc := by
      intro l
      induction l with
      | nil => intro acc; exact Nat.le_refl acc
      | cons d l ih => intro acc; exact Nat.le_trans (by omega) (ih (acc * 10 + (d.toNat - 0x30)))
    rw [List.foldl_cons] at hle ⊢
    have hstep := hmono digits (acc * 10 + (d.toNat - 0x30))
    rw [Nat.min_eq_left (by omega)]
    exact ih _ hle

end Digits

theorem parseSpan_decimal_min {n : Nat} (h1 : 1 ≤ n) (h2 : n ≤ 2 ^ 30) (maximum : Nat) :
    parseSpan (decimal n) maximum = min maximum n := by
  have hd := decimal_digits n
  have hof := ofDigits_decimal n
  have hne : (decimal n).isEmpty = false := by simpa using decimal_ne_nil n
  simp only [parseSpan, dropWhile_space_digits hd, takeWhile_digits hd, dropWhile_digits hd, hne,
    List.dropWhile_nil, List.isEmpty_nil, Bool.not_true, Bool.or_self, Bool.false_eq_true, if_false]
  simp only [ofDigits] at hof
  rw [foldl_min_eq 0 (by rw [hof]; exact h2), hof]
  omega

theorem parseSpan_decimal {n maximum : Nat} (h1 : 1 ≤ n) (h2 : n ≤ maximum) (h3 : n ≤ 2 ^ 30) :
    parseSpan (decimal n) maximum = n := by
  rw [parseSpan_decimal_min h1 h3, Nat.min_eq_right h2]

theorem pythonInt_decimal {n : Nat} (h : n < 2 ^ 63) : pythonInt (decimal n) = some (n : Int) := by
  have hd := decimal_digits n
  have hof := ofDigits_decimal n
  have hne : (decimal n).isEmpty = false := by simpa using decimal_ne_nil n
  have hstrip : stripView (decimal n) = decimal n := by
    rw [stripView, dropWhile_space_digits hd, rdropWhile_space_digits hd]
  have hall : (decimal n).all isDigit = true := List.all_eq_true.2 hd
  simp only [pythonInt, hstrip, hne, head?_digits hd _ (.inl rfl), Bool.false_eq_true, if_false,
    fromChars, head?_digits hd _ (.inr rfl), hall, Bool.not_true, Bool.or_self, hof]
  rw [if_pos (by omega)]

theorem clampSpan_eq {n : Nat} (h1 : 1 ≤ n) (h2 : n ≤ kMaxTableCells) :
    clampSpan (n : Int) = n := by
  simp only [clampSpan, kMaxTableCells] at h2 ⊢
  omega

/-! ## Rendering a tiling -/

/-- What a rectangle of an HTML table carries. -/
structure HtmlCell where
  text : Bytes
  no_markup : 0x3C ∉ text ∧ 0x26 ∉ text
  trimmed : trim text = text
  normalised : collapseWhitespace text = text

def openTd (r : Rect HtmlCell) : Bytes :=
  ascii "<td colspan=\"" ++ decimal r.width ++ ascii "\" rowspan=\"" ++ decimal r.height ++
    ascii "\">"

def renderTd (r : Rect HtmlCell) : Bytes := openTd r ++ r.value.text ++ ascii "</td>"

def renderTr (rects : List (Rect HtmlCell)) : Bytes :=
  ascii "<tr>" ++ rects.flatMap renderTd ++ ascii "</tr>"

/-- The standard rendering: a `tr` per grid row, in it a `td` per rectangle
with its corner in that row. -/
def renderHtml (t : Tiling HtmlCell) : Bytes :=
  ascii "<table>" ++ (List.range t.rows).flatMap (fun i => renderTr (t.rowRects i)) ++
    ascii "</table>"

/-! ## Its element tree -/

def textNodes (text : Bytes) : List MarkupNode := if text.isEmpty then [] else [.text text]

def tdNode (r : Rect HtmlCell) : MarkupNode :=
  .element (ascii "td") [(ascii "colspan", decimal r.width), (ascii "rowspan", decimal r.height)]
    (textNodes r.value.text)

def trNode (rects : List (Rect HtmlCell)) : MarkupNode :=
  .element (ascii "tr") [] (rects.map tdNode)

def tableNode (t : Tiling HtmlCell) : MarkupNode :=
  .element (ascii "table") [] ((List.range t.rows).map fun i => trNode (t.rowRects i))

theorem reads_tr : Reads .html (ascii "<tr>") ⟨ascii "tr", false, false, []⟩ :=
  ⟨by decide, by decide, fun _ => rfl⟩

theorem reads_close_tr : Reads .html (ascii "</tr>") ⟨ascii "tr", true, false, []⟩ :=
  ⟨by decide, by decide, fun _ => rfl⟩

theorem reads_close_td : Reads .html (ascii "</td>") ⟨ascii "td", true, false, []⟩ :=
  ⟨by decide, by decide, fun _ => rfl⟩

theorem reads_table : Reads .html (ascii "<table>") ⟨ascii "table", false, false, []⟩ :=
  ⟨by decide, by decide, fun _ => rfl⟩

theorem reads_close_table : Reads .html (ascii "</table>") ⟨ascii "table", true, false, []⟩ :=
  ⟨by decide, by decide, fun _ => rfl⟩

theorem plainName_td : PlainName (ascii "td") :=
  ⟨by decide, List.all_eq_true.1 (by decide), by decide⟩

theorem plainAttr_decimal {name : Bytes} (h : PlainName name) (n : Nat) :
    PlainAttr (name, decimal n) :=
  ⟨h, fun hm => (isDigit_cases (decimal_digits n _ hm)).2.1 rfl,
    fun hm => (isDigit_cases (decimal_digits n _ hm)).2.2.1 rfl⟩

theorem plainAttr_rowspan (n : Nat) : PlainAttr (ascii "rowspan", decimal n) :=
  plainAttr_decimal ⟨by decide, List.all_eq_true.1 (by decide), by decide⟩ n

theorem plainAttr_colspan (n : Nat) : PlainAttr (ascii "colspan", decimal n) :=
  plainAttr_decimal ⟨by decide, List.all_eq_true.1 (by decide), by decide⟩ n

theorem reads_openTd (r : Rect HtmlCell) (hw : r.width ≤ 30000) (hh : r.height ≤ 30000) :
    Reads .html (openTd r) ⟨ascii "td", false, false,
      [(ascii "colspan", decimal r.width), (ascii "rowspan", decimal r.height)]⟩ := by
  have hform : openTd r = openTagBytes (ascii "td")
      [(ascii "colspan", decimal r.width), (ascii "rowspan", decimal r.height)] := by
    simp [openTd, openTagBytes, quotedAttr, ascii]
  have h1 := length_decimal_le r.width
  have h2 := length_decimal_le r.height
  have hlen : (openTd r).length = (decimal r.width).length + (decimal r.height).length + 26 := by
    simp [openTd, ascii]
    omega
  rw [hform] at hlen ⊢
  refine reads_openTagBytes plainName_td ?_ (by rw [hlen, kMaxTagBytes]; omega)
  rintro attr (_ | ⟨_, _ | ⟨_, hattr⟩⟩)
  · exact plainAttr_colspan _
  · exact plainAttr_rowspan _
  · cases hattr

section Parse
variable {table : Frame}

/-- A rendered cell inside an open row. -/
theorem parse_td (r : Rect HtmlCell) (hw : r.width ≤ 30000) (hh : r.height ≤ 30000)
    (cells : List MarkupNode) (rest : Bytes) :
    parseRest .html ⟨[⟨ascii "tr", [], cells⟩, table], []⟩ [] (renderTd r ++ rest) =
      parseRest .html ⟨[⟨ascii "tr", [], cells ++ [tdNode r]⟩, table], []⟩ [] rest := by
  have hsplit : renderTd r ++ rest =
    [] ++ (openTd r ++ (r.value.text ++ (ascii "</td>" ++ rest))) := by
    simp [renderTd]
  have htext : Builder.text ⟨[⟨ascii "td", [(ascii "colspan", decimal r.width),
      (ascii "rowspan", decimal r.height)], []⟩, ⟨ascii "tr", [], cells⟩, table], []⟩ r.value.text =
      ⟨[⟨ascii "td", [(ascii "colspan", decimal r.width), (ascii "rowspan", decimal r.height)],
        textNodes r.value.text⟩, ⟨ascii "tr", [], cells⟩, table], []⟩ := by
    unfold Builder.text textNodes
    split
    · rfl
    · simp [extendText, decodeEntities_eq r.value.no_markup.2]
  rw [hsplit, parseRest_tag (by simp) (reads_openTd r hw hh) rfl]
  have hopen : Builder.apply .html (Builder.text ⟨[⟨ascii "tr", [], cells⟩, table], []⟩ [])
      ⟨ascii "td", false, false, [(ascii "colspan", decimal r.width),
        (ascii "rowspan", decimal r.height)]⟩ =
      ⟨[⟨ascii "td", [(ascii "colspan", decimal r.width), (ascii "rowspan", decimal r.height)], []⟩,
        ⟨ascii "tr", [], cells⟩, table], []⟩ := rfl
  rw [hopen, parseRest_tag r.value.no_markup.1 reads_close_td (by decide), htext]
  rfl

/-- The cells of a row. -/
theorem parse_tds (rects : List (Rect HtmlCell)) :
    (∀ r ∈ rects, r.width ≤ 30000 ∧ r.height ≤ 30000) → ∀ (cells : List MarkupNode) (rest : Bytes),
    parseRest .html ⟨[⟨ascii "tr", [], cells⟩, table], []⟩ [] (rects.flatMap renderTd ++ rest) =
      parseRest .html ⟨[⟨ascii "tr", [], cells ++ rects.map tdNode⟩, table], []⟩ [] rest := by
  induction rects with
  | nil => intro _ cells rest; simp
  | cons r rects ih =>
    intro h cells rest
    have hr := h r List.mem_cons_self
    rw [List.flatMap_cons, List.append_assoc, parse_td r hr.1 hr.2,
      ih (fun r' hr' => h r' (List.mem_cons_of_mem _ hr'))]
    simp

end Parse

/-- A rendered row inside an open table. -/
theorem parse_tr (rects : List (Rect HtmlCell))
    (h : ∀ r ∈ rects, r.width ≤ 30000 ∧ r.height ≤ 30000)
    (done : List MarkupNode) (rest : Bytes) :
    parseRest .html ⟨[⟨ascii "table", [], done⟩], []⟩ [] (renderTr rects ++ rest) =
      parseRest .html ⟨[⟨ascii "table", [], done ++ [trNode rects]⟩], []⟩ [] rest := by
  have hsplit : renderTr rects ++ rest =
      [] ++ (ascii "<tr>" ++ (rects.flatMap renderTd ++ (ascii "</tr>" ++ rest))) := by
    simp [renderTr]
  rw [hsplit, parseRest_tag (by simp) reads_tr (by decide)]
  have hopen : Builder.apply .html (Builder.text ⟨[⟨ascii "table", [], done⟩], []⟩ [])
      ⟨ascii "tr", false, false, []⟩ = ⟨[⟨ascii "tr", [], []⟩, ⟨ascii "table", [], done⟩], []⟩ :=
        rfl
  have hclose :
    parseRest .html ⟨[⟨ascii "tr", [], [] ++ rects.map tdNode⟩, ⟨ascii "table", [], done⟩],
      []⟩ [] ([] ++ (ascii "</tr>" ++ rest)) =
      parseRest .html ⟨[⟨ascii "table", [], done ++ [trNode rects]⟩], []⟩ [] rest := by
    rw [parseRest_tag (by simp) reads_close_tr rfl]
    rfl
  rw [hopen, parse_tds rects h]
  exact hclose

/-- The rows of a table. -/
theorem parse_trs (rows : List (List (Rect HtmlCell))) :
    (∀ rects ∈ rows, ∀ r ∈ rects, r.width ≤ 30000 ∧ r.height ≤ 30000) →
    ∀ (done : List MarkupNode) (rest : Bytes),
    parseRest .html ⟨[⟨ascii "table", [], done⟩], []⟩ [] (rows.flatMap renderTr ++ rest) =
      parseRest .html ⟨[⟨ascii "table", [], done ++ rows.map trNode⟩], []⟩ [] rest := by
  induction rows with
  | nil => intro _ done rest; simp
  | cons rects rows ih =>
    intro h done rest
    rw [List.flatMap_cons, List.append_assoc, parse_tr rects (h rects List.mem_cons_self),
      ih (fun rects' hr => h rects' (List.mem_cons_of_mem _ hr))]
    simp

section Tree
variable {t : Tiling HtmlCell} (hrows : t.rows ≤ kMaxTableRows) (hcols : t.cols ≤ kMaxTableCols)
include hrows hcols

theorem rect_bounds {r : Rect HtmlCell} (hr : r ∈ t.rects) :
    1 ≤ r.width ∧ 1 ≤ r.height ∧ r.width ≤ 250 ∧ r.height ≤ 2000 := by
  obtain ⟨i, j, hi, hj, rfl⟩ := Tiling.mem_rects.1 hr
  have hin := t.inside hi hj
  obtain ⟨c1, c2, c3, c4⟩ := t.contains hi hj
  simp only [kMaxTableRows, kMaxTableCols] at hrows hcols
  omega

/-- **The parser reads a rendered tiling as its element tree.** -/
theorem parseMarkup_renderHtml :
    parseMarkup .html (renderHtml t) = .element (ascii "root") [] [tableNode t] := by
  have hbound : ∀ rects ∈ (List.range t.rows).map t.rowRects, ∀ r ∈ rects,
      r.width ≤ 30000 ∧ r.height ≤ 30000 := by
    intro rects hm r hr
    obtain ⟨i, hi, rfl⟩ := List.mem_map.1 hm
    have := rect_bounds hrows hcols (List.mem_flatMap.2 ⟨i, hi, hr⟩)
    omega
  have hsplit : renderHtml t = [] ++ (ascii "<table>" ++
      (((List.range t.rows).map t.rowRects).flatMap renderTr ++
      ([] ++ (ascii "</table>" ++ [])))) := by
    simp [renderHtml, List.flatMap_map]
  have hparse : parseRest .html ⟨[], []⟩ [] (renderHtml t) = ⟨[], [tableNode t]⟩ := by
    rw [hsplit, parseRest_tag (by simp) reads_table rfl]
    have hopen : Builder.apply .html (Builder.text ⟨[], []⟩ []) ⟨ascii "table", false, false, []⟩ =
      ⟨[⟨ascii "table", [], []⟩], []⟩ := rfl
    rw [hopen, parse_trs _ hbound, parseRest_tag (by simp) reads_close_table rfl, parseRest_nil]
    have htable : tableNode t = .element (ascii "table") []
        ([] ++ ((List.range t.rows).map t.rowRects).map trNode) := by simp [tableNode]
    rw [htable]
    rfl
  have hmarkup : parseMarkup .html (renderHtml t) =
      (parseRest .html ⟨[], []⟩ [] (renderHtml t)).take := rfl
  rw [hmarkup, hparse]
  rfl

end Tree

/-! ## Chandra places every rectangle -/

/-- The cell both readers return for a rectangle. -/
def spanOf (r : Rect HtmlCell) : SpanCell :=
  ⟨r.row, r.col, r.height, r.width, r.value.text, false, false⟩

theorem getD_occupy (occupied : List Nat) (col colSpan until_ c : Nat) :
    (occupy occupied col colSpan until_).getD c 0 =
      if col ≤ c ∧ c < col + colSpan then max (occupied.getD c 0) until_
      else occupied.getD c 0 := by
  unfold occupy
  by_cases hlt : c < max occupied.length (col + colSpan)
  · simp [List.getD_eq_getElem?_getD, hlt]
  · have hnone : occupied.getD c 0 = 0 := by
      rw [List.getD_eq_getElem?_getD, List.getElem?_eq_none (by omega)]
      rfl
    have hcol : ¬ (col ≤ c ∧ c < col + colSpan) := by omega
    rw [if_neg hcol, hnone, List.getD_eq_getElem?_getD, List.getElem?_eq_none (by simp; omega)]
    rfl

/-- The cursor skips the occupied columns and no other. -/
theorem chandra_skip {occupied : List Nat} {rowIndex col n : Nat} (hle : col ≤ n)
    (hskip : ∀ c, col ≤ c → c < n → rowIndex < occupied.getD c 0)
    (hfree : ¬ rowIndex < occupied.getD n 0) :
    col + ((occupied.drop col).takeWhile fun until_ => decide (rowIndex < until_)).length = n := by
  have hrun := takeWhile_drop_length (p := fun until_ => decide (rowIndex < until_)) (l := occupied)
    (m := n - col) (a := col) ?_ ?_
  · rw [hrun]; omega
  · intro k h1 h2
    have hk := hskip k h1 (by omega)
    rw [List.getD_eq_getElem?_getD] at hk
    cases hocc : occupied[k]? with
    | none => rw [hocc] at hk; exact absurd hk (Nat.not_lt_zero _)
    | some u => rw [hocc] at hk; exact ⟨u, rfl, by simpa using hk⟩
  · intro u hu
    rw [show col + (n - col) = n by omega] at hu
    rw [List.getD_eq_getElem?_getD, hu] at hfree
    simpa using hfree

theorem htmlTextIn_textNodes (text : Bytes) : htmlTextIn (textNodes text) = text := by
  unfold textNodes
  split
  · rename_i h
    rw [List.isEmpty_iff.1 h]
    rfl
  · show text ++ [] ++ [] = text
    rw [List.append_nil, List.append_nil]

theorem htmlText_tdNode (r : Rect HtmlCell) : htmlText (tdNode r) = r.value.text :=
  htmlTextIn_textNodes r.value.text

theorem rawText_tdNode (r : Rect HtmlCell) : rawText (tdNode r) = r.value.text := by
  unfold tdNode textNodes
  split
  · rename_i h
    rw [List.isEmpty_iff.1 h]
    rfl
  · have hraw : rawText (.element (ascii "td") [(ascii "colspan", decimal r.width),
        (ascii "rowspan", decimal r.height)] [.text r.value.text]) = r.value.text ++ [] := rfl
    rw [hraw, List.append_nil]

theorem decimal_ne_zero {n : Nat} (h : 1 ≤ n) : (decimal n == ascii "0") = false := by
  rw [beq_eq_false_iff_ne]
  intro e
  have : n = 0 := decimal_injective (e.trans rfl)
  omega

/-- A rectangle's cell, read with the cursor left of it. -/
theorem chandraCells_td {r : Rect HtmlCell} {occupied : List Nat} {i remaining col : Nat}
    {nodes : List MarkupNode} (hrow : r.row = i) (hw : 1 ≤ r.width) (hh : 1 ≤ r.height)
    (hend : r.col + r.width ≤ kMaxTableCols) (hrem : r.height ≤ remaining) (hmax : r.height ≤ 2000)
    (hskip : col + ((occupied.drop col).takeWhile fun until_ => decide (i < until_)).length =
      r.col) :
    chandraCells i remaining false (tdNode r :: nodes) occupied col =
      (spanOf r :: (chandraCells i remaining false nodes
        (occupy occupied r.col r.width (i + r.height)) (r.col + r.width)).1,
      (chandraCells i remaining false nodes
        (occupy occupied r.col r.width (i + r.height)) (r.col + r.width)).2) := by
  have hcell : isCell (tdNode r) = true := rfl
  have hcolspan : (tdNode r).attr (ascii "colspan") (ascii "1") = decimal r.width := rfl
  have hrowspan : ∀ d, (tdNode r).attr (ascii "rowspan") d = decimal r.height := fun _ => rfl
  have hscope : (tdNode r).attr (ascii "scope") [] = [] := rfl
  have htag : ((tdNode r).tag == ascii "th") = false := rfl
  simp only [kMaxTableCols] at hend
  have h1 : parseSpan (decimal r.width) kMaxTableCells = r.width :=
    parseSpan_decimal hw (by simp only [kMaxTableCells]; omega) (by omega)
  have h2 : parseSpan (decimal r.height) remaining = r.height :=
    parseSpan_decimal hh hrem (by omega)
  have hguard : ¬ r.col + r.width > kMaxTableCols * 4 := by simp only [kMaxTableCols]; omega
  rw [chandraCells]
  simp only [hcell, hcolspan, hrowspan, hscope, htag, h1, h2, decimal_ne_zero hh, hskip, hguard,
    htmlText_tdNode, r.value.normalised, Bool.not_true, Bool.false_eq_true, if_false,
    Bool.false_and, Bool.or_false]
  rw [spanOf, hrow]
  rfl

/-- A table of rows without row groups. -/
theorem chandraRows_trs (rows : List (List MarkupNode)) :
    chandraRows (.element (ascii "table") [] (rows.map (.element (ascii "tr") []))) =
      rows.map fun cells => ⟨.element (ascii "tr") [] cells, false, 0⟩ := by
  have hfold : ∀ (rows : List (List MarkupNode)) (done : List ChandraRow),
      (rows.map (.element (ascii "tr") [])).foldl addRows done =
        done ++ rows.map fun cells => ⟨.element (ascii "tr") [] cells, false, 0⟩ := by
    intro rows
    induction rows with
    | nil => intro done; simp
    | cons cells rows ih =>
      intro done
      have hadd : addRows done (.element (ascii "tr") [] cells) =
        done ++ [⟨.element (ascii "tr") [] cells, false, 0⟩] := rfl
      rw [List.map_cons, List.foldl_cons, hadd, ih, List.map_cons, List.append_assoc,
        List.singleton_append]
  exact hfold rows []

section Chandra
variable {t : Tiling HtmlCell} (hrows : t.rows ≤ kMaxTableRows) (hcols : t.cols ≤ kMaxTableCols)
include hrows hcols

/-- The rest of a row, from the state its corners so far left. -/
theorem chandraCells_row {i : Nat} (hi : i < t.rows) : ∀ {n}, n ≤ t.cols → ∀ occupied col,
    t.RowState i n (fun r c => r < occupied.getD c 0) col →
    ∃ occupied' col', t.RowState i t.cols (fun r c => r < occupied'.getD c 0) col' ∧
      chandraCells i (t.rows - i) false ((t.rowFrom i n).map tdNode) occupied col =
        ((t.rowFrom i n).map spanOf, occupied') := by
  intro n hn
  apply Tiling.row_induction (t := t) ?_ ?_ hn
  · intro occupied col hst
    rw [Tiling.rowFrom_end (Nat.le_refl _)]
    exact ⟨occupied, col, hst, rfl⟩
  · intro n hn ih occupied col hst
    by_cases hc : (t.cover i n).IsCorner i n
    · obtain ⟨h1, h2, h3⟩ := hst.at_corner hi hn hc
      have hin := t.inside hi hn
      have hb := rect_bounds hrows hcols (Tiling.mem_rects.2 ⟨i, n, hi, hn, rfl⟩)
      have hrow := hc.1
      have hcol := hc.2
      have hplace : t.RowState i (n + 1) (fun r c => r < (occupy occupied n (t.cover i n).width
          (i + (t.cover i n).height)).getD c 0) (n + (t.cover i n).width) := by
        apply hst.place hi hn hc
        intro r c _ _ _
        rw [getD_occupy]
        split <;> omega
      obtain ⟨occupied', col', hst', heq⟩ := ih _ _ hplace
      refine ⟨occupied', col', hst', ?_⟩
      rw [Tiling.rowFrom_corner hn hc, List.map_cons, List.map_cons,
        chandraCells_td hrow hb.1 hb.2.1 (by omega) (by omega) (by omega)
          ((chandra_skip h1 h2 h3).trans hcol.symm), hcol, heq]
    · rw [Tiling.rowFrom_pass hn hc]
      exact ih occupied col (hst.pass hi hc)

/-- The rows from `i` on. -/
theorem chandraFrom_rows : ∀ {k i : Nat} {occupied : List Nat}, i + k = t.rows →
    (∀ {r c}, i ≤ r → r < t.rows → c < t.cols → (r < occupied.getD c 0 ↔ (t.cover r c).row < i)) →
    chandraFrom t.rows i
      ((List.range' i k).map fun i => ⟨trNode (t.rowRects i), false, 0⟩) occupied =
      ((List.range' i k).flatMap t.rowRects).map spanOf := by
  intro k
  induction k with
  | zero => intro i occupied _ _; rfl
  | succ k ih =>
    intro i occupied hk hocc
    have hi : i < t.rows := by omega
    obtain ⟨occupied', col', hst, heq⟩ :=
      chandraCells_row hrows hcols hi (Nat.zero_le _) occupied 0 (Tiling.RowState.start hocc)
    rw [Tiling.rowFrom_zero] at heq
    have hnext := @ih (i + 1) occupied' (by omega)
      fun h1 h2 h3 => hst.next h1 h2 h3
    have hchildren : (trNode (t.rowRects i)).children = (t.rowRects i).map tdNode := rfl
    rw [List.range'_succ, List.map_cons, List.flatMap_cons, List.map_append, chandraFrom]
    simp only [hchildren, ne_eq, not_true_eq_false, if_false, heq, hnext]

omit hrows hcols in
theorem chandraRows_tableNode : chandraRows (tableNode t) =
    (List.range t.rows).map fun i => ⟨trNode (t.rowRects i), false, 0⟩ := by
  have hrows := chandraRows_trs ((List.range t.rows).map fun i => (t.rowRects i).map tdNode)
  rw [List.map_map, List.map_map] at hrows
  exact hrows

theorem chandraTableCells_tableNode : chandraTableCells (tableNode t) = t.rects.map spanOf := by
  have hstart : ∀ {r c}, 0 ≤ r → r < t.rows → c < t.cols →
      (r < List.getD [] c 0 ↔ (t.cover r c).row < 0) := by
    intro r c _ _ _
    simp
  have hall := chandraFrom_rows hrows hcols (Nat.zero_add t.rows) hstart
  rw [← List.range_eq_range'] at hall
  simp only [chandraTableCells, chandraRows_tableNode, List.length_map, List.length_range]
  exact hall

end Chandra

/-! ## DeepSeek places every rectangle -/

/-- The mark at a position, `none` outside the matrix. -/
def markAt (taken : List (List Bool)) (r c : Nat) : Option Bool := taken[r]?.bind fun row => row[c]?

theorem markAt_take (taken : List (List Bool)) (r0 col rowSpan colSpan r c : Nat) :
    markAt (take taken r0 col rowSpan colSpan) r c = (markAt taken r c).map fun old =>
      if r0 ≤ r ∧ r < r0 + rowSpan ∧ col ≤ c ∧ c < col + colSpan then true else old := by
  simp only [markAt, take, List.getElem?_mapIdx]
  cases taken[r]? with
  | none => rfl
  | some row => simp [List.getElem?_mapIdx]

/-- The cursor skips the taken positions and no other. -/
theorem deepseek_skip {taken : List (List Bool)} {r col n : Nat} (hle : col ≤ n)
    (hskip : ∀ c, col ≤ c → c < n → markAt taken r c = some true)
    (hfree : ¬ markAt taken r n = some true) :
    col + (((taken.getD r []).drop col).takeWhile id).length = n := by
  have hrow : ∀ c, (taken.getD r [])[c]? = markAt taken r c := by
    intro c
    unfold markAt
    rw [List.getD_eq_getElem?_getD]
    cases taken[r]? <;> rfl
  have hrun :=
    takeWhile_drop_length (p := id) (l := taken.getD r []) (m := n - col) (a := col) ?_ ?_
  · rw [hrun]; omega
  · intro k h1 h2
    exact ⟨true, (hrow k).trans (hskip k h1 (by omega)), rfl⟩
  · intro b hb
    rw [show col + (n - col) = n by omega, hrow] at hb
    cases b with
    | true => exact absurd hb hfree
    | false => rfl

/-- The raw cell of a rectangle. -/
def rawOf (r : Rect HtmlCell) : RawCell := ⟨tdNode r, r.width, r.height⟩

theorem deepseekCells_td {r : Rect HtmlCell} {taken : List (List Bool)}
    {i numRows numCols col : Nat}
    {rest : List RawCell} (hrow : r.row = i) (hw : 1 ≤ r.width)
    (hend : r.col + r.width ≤ numCols) (hbelow : r.row + r.height ≤ numRows)
    (hskip : col + (((taken.getD i []).drop col).takeWhile id).length = r.col) :
    deepseekCells numRows numCols i (rawOf r :: rest) taken col =
      (spanOf r :: (deepseekCells numRows numCols i rest (take taken i r.col r.height r.width)
        (r.col + r.width)).1,
      (deepseekCells numRows numCols i rest (take taken i r.col r.height r.width)
        (r.col + r.width)).2) := by
  have htag : ((tdNode r).tag == ascii "th") = false := rfl
  have hguard : ¬ r.col ≥ numCols := by omega
  have hh : min r.height (numRows - i) = r.height := by omega
  have hw' : min r.width (numCols - r.col) = r.width := by omega
  rw [deepseekCells]
  simp only [rawOf, hskip, hguard, if_false, hh, hw', htag, rawText_tdNode, r.value.trimmed,
    Bool.false_and]
  rw [spanOf, hrow]

section Deepseek
variable {t : Tiling HtmlCell}

/-- Every position of the grid has a mark. -/
def Marked (t : Tiling HtmlCell) (taken : List (List Bool)) : Prop :=
  ∀ {r c}, r < t.rows → c < t.cols → ∃ b, markAt taken r c = some b

theorem Marked.take {taken : List (List Bool)} (h : Marked t taken) (r0 col rowSpan colSpan : Nat) :
    Marked t (take taken r0 col rowSpan colSpan) := by
  intro r c hr hc
  obtain ⟨b, hb⟩ := h hr hc
  exact ⟨_, by rw [markAt_take, hb, Option.map_some]⟩

/-- The rest of a row, from the state its corners so far left. -/
theorem deepseekCells_row {i : Nat} (hi : i < t.rows) : ∀ {n}, n ≤ t.cols → ∀ taken col,
    Marked t taken → t.RowState i n (fun r c => markAt taken r c = some true) col →
    ∃ taken' col', Marked t taken' ∧
      t.RowState i t.cols (fun r c => markAt taken' r c = some true) col' ∧
      deepseekCells t.rows t.cols i ((t.rowFrom i n).map rawOf) taken col =
        ((t.rowFrom i n).map spanOf, taken') := by
  intro n hn
  apply Tiling.row_induction (t := t) ?_ ?_ hn
  · intro taken col hm hst
    rw [Tiling.rowFrom_end (Nat.le_refl _)]
    exact ⟨taken, col, hm, hst, rfl⟩
  · intro n hn ih taken col hm hst
    by_cases hc : (t.cover i n).IsCorner i n
    · obtain ⟨h1, h2, h3⟩ := hst.at_corner hi hn hc
      have hin := t.inside hi hn
      obtain ⟨c1, c2, c3, c4⟩ := t.contains hi hn
      have hrow := hc.1
      have hcol := hc.2
      have hplace : t.RowState i (n + 1) (fun r c => markAt (take taken i n (t.cover i n).height
          (t.cover i n).width) r c = some true) (n + (t.cover i n).width) := by
        apply hst.place hi hn hc
        intro r c hr1 hr2 hr3
        obtain ⟨b, hb⟩ := hm hr2 hr3
        rw [markAt_take, hb, Option.map_some]
        by_cases hin : r < i + (t.cover i n).height ∧ n ≤ c ∧ c < n + (t.cover i n).width
        · simp [hr1, hin]
        · simp [hin]
      obtain ⟨taken', col', hm', hst', heq⟩ := ih _ _ (hm.take _ _ _ _) hplace
      refine ⟨taken', col', hm', hst', ?_⟩
      rw [Tiling.rowFrom_corner hn hc, List.map_cons, List.map_cons,
        deepseekCells_td hrow (by omega) hin.2 hin.1 ((deepseek_skip h1 h2 h3).trans hcol.symm),
          hcol,
        heq]
    · rw [Tiling.rowFrom_pass hn hc]
      exact ih taken col hm (hst.pass hi hc)

/-- The rows from `i` on. -/
theorem deepseekFrom_rows : ∀ {k i : Nat} {taken : List (List Bool)}, i + k = t.rows →
    Marked t taken → (∀ {r c}, i ≤ r → r < t.rows → c < t.cols →
      (markAt taken r c = some true ↔ (t.cover r c).row < i)) →
    deepseekFrom t.rows t.cols i ((List.range' i k).map fun i => (t.rowRects i).map rawOf) taken =
      ((List.range' i k).flatMap t.rowRects).map spanOf := by
  intro k
  induction k with
  | zero => intro i taken _ _ _; rfl
  | succ k ih =>
    intro i taken hk hm htaken
    have hi : i < t.rows := by omega
    obtain ⟨taken', col', hm', hst, heq⟩ :=
      deepseekCells_row hi (Nat.zero_le _) taken 0 hm (Tiling.RowState.start htaken)
    rw [Tiling.rowFrom_zero] at heq
    have hnext := ih (i := i + 1) (by omega) hm' fun h1 h2 h3 => hst.next h1 h2 h3
    rw [List.range'_succ, List.map_cons, List.flatMap_cons, List.map_append, deepseekFrom]
    simp only [heq, hnext]

theorem deepseek_start : Marked t (List.replicate t.rows (List.replicate t.cols false)) ∧
    ∀ {r c}, 0 ≤ r → r < t.rows → c < t.cols →
      (markAt (List.replicate t.rows (List.replicate t.cols false)) r c = some true ↔
        (t.cover r c).row < 0) := by
  have hmark : ∀ {r c}, r < t.rows → c < t.cols →
      markAt (List.replicate t.rows (List.replicate t.cols false)) r c = some false := by
    intro r c hr hc
    simp [markAt, hr, hc]
  refine ⟨fun hr hc => ⟨false, hmark hr hc⟩, fun _ hr hc => ?_⟩
  rw [hmark hr hc]
  simp

end Deepseek

/-! ## The rows DeepSeek sees -/

theorem collectRowsIn_tds :
    ∀ rects : List (Rect HtmlCell), collectRowsIn (rects.map tdNode) = [] := by
  intro rects
  induction rects with
  | nil => rfl
  | cons r rects ih =>
    have hcons : collectRowsIn (tdNode r :: rects.map tdNode) =
      [] ++ collectRowsIn (textNodes r.value.text) ++ collectRowsIn (rects.map tdNode) := rfl
    rw [List.map_cons, hcons, ih]
    unfold textNodes
    split <;> rfl

theorem collectRowsIn_trs : ∀ rows : List (List (Rect HtmlCell)),
    collectRowsIn (rows.map trNode) = rows.map trNode := by
  intro rows
  induction rows with
  | nil => rfl
  | cons rects rows ih =>
    have hcons : collectRowsIn (trNode rects :: rows.map trNode) =
      [trNode rects] ++ collectRowsIn (rects.map tdNode) ++ collectRowsIn (rows.map trNode) := rfl
    rw [List.map_cons, hcons, ih, collectRowsIn_tds]
    simp

theorem rawCells_tds : ∀ rects : List (Rect HtmlCell), (∀ r ∈ rects,
    1 ≤ r.width ∧ 1 ≤ r.height ∧ r.width ≤ 250 ∧ r.height ≤ 2000) →
    rawCells (rects.map tdNode) = some (rects.map rawOf) := by
  intro rects
  induction rects with
  | nil => intro _; rfl
  | cons r rects ih =>
    intro h
    obtain ⟨h1, h2, h3, h4⟩ := h r List.mem_cons_self
    have hcell : isCell (tdNode r) = true := rfl
    have hcolspan : (tdNode r).attr (ascii "colspan") (ascii "1") = decimal r.width := rfl
    have hrowspan : (tdNode r).attr (ascii "rowspan") (ascii "1") = decimal r.height := rfl
    have hw := clampSpan_eq h1 (Nat.le_trans h3 (by decide))
    have hh := clampSpan_eq h2 (Nat.le_trans h4 (by decide))
    rw [List.map_cons, rawCells]
    simp only [hcell, hcolspan, hrowspan, pythonInt_decimal (show r.width < 2 ^ 63 by omega),
      pythonInt_decimal (show r.height < 2 ^ 63 by omega), hw, hh, Bool.not_true,
        Bool.false_eq_true,
      if_false, ih fun r' hr' => h r' (List.mem_cons_of_mem _ hr'), Option.map_some]
    rfl

theorem mapM_rawCells : ∀ rows : List (List (Rect HtmlCell)), (∀ rects ∈ rows, ∀ r ∈ rects,
    1 ≤ r.width ∧ 1 ≤ r.height ∧ r.width ≤ 250 ∧ r.height ≤ 2000) →
    ((rows.map trNode).mapM fun row => rawCells row.children) = some (rows.map (·.map rawOf)) := by
  intro rows
  induction rows with
  | nil => intro _; rfl
  | cons rects rows ih =>
    intro h
    have hchildren : (trNode rects).children = rects.map tdNode := rfl
    rw [List.map_cons, List.mapM_cons, hchildren, rawCells_tds rects (h rects List.mem_cons_self),
      ih fun rects' hr => h rects' (List.mem_cons_of_mem _ hr)]
    rfl

/-! ## The text DeepSeek cuts out -/

theorem toLower_ne {b : UInt8} (h : b ≠ 0x3C) : toLower b ≠ 0x3C := by
  unfold toLower
  split
  · rename_i hb
    simp only [Bool.and_eq_true, decide_eq_true_eq, UInt8.le_iff_toNat_le] at hb
    intro e
    have := congrArg UInt8.toNat e
    simp only [UInt8.toNat_add, UInt8.toNat_ofNat] at hb this
    omega
  · exact h

theorem map_toLower_ne {l : Bytes} (h : 0x3C ∉ l) : 0x3C ∉ l.map toLower := by
  intro hm
  obtain ⟨b, hb, e⟩ := List.mem_map.1 hm
  exact toLower_ne (fun h' => h (h' ▸ hb)) e

/-- No byte of a row, lower case, starts `</table>`. -/
theorem skips_renderTd (r : Rect HtmlCell) :
    Skips (ascii "</table>") ((renderTd r).map toLower) := by
  have hd : ∀ n, 0x3C ∉ decimal n := fun n hm => by
    have := decimal_digits n _ hm
    revert this; decide
  have hopen : Skips (ascii "</table>") ((openTd r ++ r.value.text).map toLower) := by
    have hbody : 0x3C ∉ (openTd r ++ r.value.text).drop 1 := by
      simp [openTd, ascii, hd, r.value.no_markup.1]
    apply skips_of_head rfl fun _ => rfl
    rw [← List.map_drop]
    exact map_toLower_ne hbody
  have hclose : Skips (ascii "</table>") ((ascii "</td>").map toLower) :=
    skips_of_head rfl (fun _ => rfl) (by decide)
  rw [renderTd, List.map_append]
  exact hopen.append hclose

theorem skips_renderTr (rects : List (Rect HtmlCell)) :
    Skips (ascii "</table>") ((renderTr rects).map toLower) := by
  have hopen : Skips (ascii "</table>") ((ascii "<tr>").map toLower) :=
    skips_of_head rfl (fun _ => rfl) (by decide)
  have hclose : Skips (ascii "</table>") ((ascii "</tr>").map toLower) :=
    skips_of_head rfl (fun _ => rfl) (by decide)
  rw [renderTr, List.map_append, List.map_append, List.map_flatMap]
  exact (hopen.append (Skips.flatMap fun r _ => skips_renderTd r)).append hclose

theorem tableHtml_renderHtml (t : Tiling HtmlCell) :
    tableHtml (renderHtml t) = some (renderHtml t) := by
  have hlower : (renderHtml t).map toLower = ascii "<table" ++ 0x3E :: (((List.range t.rows).flatMap
      fun i => (renderTr (t.rowRects i)).map toLower) ++ ascii "</table>") := by
    rw [renderHtml, List.map_append, List.map_append, List.map_flatMap]
    rfl
  have hskips : Skips (ascii "</table>") (0x3E :: ((List.range t.rows).flatMap
      fun i => (renderTr (t.rowRects i)).map toLower)) := by
    refine Skips.append (l := [0x3E]) ?_ (Skips.flatMap fun i _ => skips_renderTr _)
    exact skips_of_head rfl (fun _ => rfl) (by decide)
  have hopen : findSub (ascii "<table") ((renderHtml t).map toLower) =
      some ([], (renderHtml t).map toLower) := by
    rw [hlower]
    rfl
  have hclose := @findSub_skips _ (ascii "</table>") rfl (by decide) _ hskips
  rw [List.cons_append] at hclose
  unfold tableHtml
  rw [hopen]
  simp only [hlower]
  rw [findByte_append (by decide)]
  simp only [hclose, List.length_nil, List.drop_zero, Option.some.injEq]
  apply List.take_of_length_le
  have hlen := congrArg List.length hlower
  simp only [List.length_map, List.length_append, List.length_cons] at hlen ⊢
  rw [hlen]
  simp [ascii]
  omega

/-! ## The readers agree -/

theorem foldl_max {l : List Nat} {m : Nat} :
    ∀ {a : Nat}, a ≤ m → (∀ x ∈ l, x ≤ m) → (a = m ∨ m ∈ l) →
    l.foldl max a = m := by
  induction l with
  | nil =>
    intro a _ _ h
    simpa using h
  | cons x l ih =>
    intro a ha hall h
    have hx := hall x List.mem_cons_self
    rw [List.foldl_cons]
    apply ih (by omega) fun y hy => hall y (List.mem_cons_of_mem _ hy)
    rcases h with rfl | h
    · exact .inl (by omega)
    · rcases List.mem_cons.1 h with rfl | h
      · exact .inl (by omega)
      · exact .inr h

section Agree
variable {t : Tiling HtmlCell} (hrows : t.rows ≤ kMaxTableRows) (hcols : t.cols ≤ kMaxTableCols)
include hrows hcols

theorem deepseekTableCells_renderHtml : deepseekTableCells (renderHtml t) = t.rects.map spanOf := by
  have hbound : ∀ rects ∈ (List.range t.rows).map t.rowRects, ∀ r ∈ rects,
      1 ≤ r.width ∧ 1 ≤ r.height ∧ r.width ≤ 250 ∧ r.height ≤ 2000 := by
    intro rects hm r hr
    obtain ⟨i, hi, rfl⟩ := List.mem_map.1 hm
    exact rect_bounds hrows hcols (List.mem_flatMap.2 ⟨i, hi, hr⟩)
  have hcollect : collectRows (parseMarkup .html (renderHtml t)) =
      ((List.range t.rows).map t.rowRects).map trNode := by
    rw [parseMarkup_renderHtml hrows hcols]
    have hroot : collectRows (.element (ascii "root") [] [tableNode t]) =
      collectRowsIn ((List.range t.rows).map fun i => trNode (t.rowRects i)) ++ [] := rfl
    have hmap : ((List.range t.rows).map fun i => trNode (t.rowRects i)) =
        ((List.range t.rows).map t.rowRects).map trNode := by rw [List.map_map]; rfl
    rw [hroot, List.append_nil, hmap, collectRowsIn_trs]
  have hwidth : ((((List.range t.rows).map t.rowRects).map (·.map rawOf)).map
      fun cells => (cells.map RawCell.colSpan).sum).foldl max 0 = t.cols := by
    have hsum : ∀ i, (((t.rowRects i).map rawOf).map RawCell.colSpan).sum =
        ((t.rowRects i).map Rect.width).sum := by
      intro i
      rw [List.map_map]
      rfl
    apply foldl_max (Nat.zero_le _)
    · intro x hx
      simp only [List.map_map, List.mem_map, List.mem_range] at hx
      obtain ⟨i, hi, rfl⟩ := hx
      exact (hsum i).trans_le (Tiling.rowRects_width_le hi)
    · simp only [List.map_map, List.mem_map, List.mem_range]
      exact .inr ⟨0, t.rows_pos, (hsum 0).trans Tiling.rowRects_zero_width⟩
  have hne : (((List.range t.rows).map t.rowRects).map trNode).isEmpty = false := by
    have := t.rows_pos
    simp [List.isEmpty_eq_false_iff]
    omega
  have hnum : min t.cols (kMaxTableCols * 4) = t.cols := by omega
  have hall := deepseekFrom_rows (Nat.zero_add t.rows) deepseek_start.1 deepseek_start.2
  rw [← List.range_eq_range'] at hall
  unfold deepseekTableCells
  rw [tableHtml_renderHtml]
  simp only [hcollect, hne, mapM_rawCells _ hbound, hwidth, hnum, Bool.false_eq_true, if_false,
    List.length_map, List.length_range]
  rw [List.map_map]
  exact hall

/-- The layout keeps a tiling within the caps whole. -/
theorem fillSpanTable_spanOf (byteSizeLong : TableCell → Nat)
    (hcells : t.rows * t.cols ≤ kMaxTableCells) :
    (fillSpanTable byteSizeLong (t.rects.map spanOf)).2.truncated = false ∧
    (fillSpanTable byteSizeLong (t.rects.map spanOf)).1.numRows = t.rows ∧
    (fillSpanTable byteSizeLong (t.rects.map spanOf)).1.numCols = t.cols := by
  obtain ⟨hle, r, hr, h1, h2⟩ := t.rects_max
  have hsourceRows : ((t.rects.map spanOf).map fun c => c.row + c.rowSpan).foldl max 0 =
    t.rows := by
    rw [List.map_map]
    apply foldl_max (Nat.zero_le _)
    · intro x hx
      obtain ⟨r', hr', rfl⟩ := List.mem_map.1 hx
      exact (hle r' hr').1
    · exact .inr (List.mem_map.2 ⟨r, hr, h1⟩)
  have hsourceCols : ((t.rects.map spanOf).map fun c => c.col + c.colSpan).foldl max 0 =
    t.cols := by
    rw [List.map_map]
    apply foldl_max (Nat.zero_le _)
    · intro x hx
      obtain ⟨r', hr', rfl⟩ := List.mem_map.1 hx
      exact (hle r' hr').2
    · exact .inr (List.mem_map.2 ⟨r, hr, h2⟩)
  have hkept := keptTableShape_eq hrows hcols hcells
  simp only [fillSpanTable, hsourceRows, hsourceCols, hkept]
  simp

end Agree

/-- **The two HTML table readers agree**: on every tiling within the table
caps both return its rectangles, and the layout keeps them whole. -/
theorem html_readers_agree (byteSizeLong : TableCell → Nat) (t : Tiling HtmlCell)
    (hrows : t.rows ≤ kMaxTableRows) (hcols : t.cols ≤ kMaxTableCols)
    (hcells : t.rows * t.cols ≤ kMaxTableCells) :
    ∃ table, findElement (ascii "table") (parseMarkup .html (renderHtml t)) = some table ∧
      chandraTableCells table = t.rects.map spanOf ∧
      deepseekTableCells (renderHtml t) = t.rects.map spanOf ∧
      ∀ cells ∈ [chandraTableCells table, deepseekTableCells (renderHtml t)],
        (fillSpanTable byteSizeLong cells).2.truncated = false ∧
        (fillSpanTable byteSizeLong cells).1.numRows = t.rows ∧
        (fillSpanTable byteSizeLong cells).1.numCols = t.cols := by
  have hchandra := chandraTableCells_tableNode hrows hcols
  have hdeepseek := deepseekTableCells_renderHtml hrows hcols
  refine ⟨tableNode t, ?_, hchandra, hdeepseek, ?_⟩
  · rw [parseMarkup_renderHtml hrows hcols]
    rfl
  · intro cells hmem
    have hcells' : cells = t.rects.map spanOf := by
      rw [hchandra, hdeepseek] at hmem
      simpa using hmem
    rw [hcells']
    exact fillSpanTable_spanOf hrows hcols byteSizeLong hcells

/-- Two cells two rows high: the second row is covered from above. -/
def sampleHtml : Tiling HtmlCell where
  rows := 2
  cols := 2
  cover _ j :=
    if j = 0 then ⟨0, 0, 2, 1, ⟨ascii "a", by decide, by decide, by decide⟩⟩
    else ⟨0, 1, 2, 1, ⟨ascii "b > c", by decide, by decide, by decide⟩⟩
  rows_pos := by decide
  cols_pos := by decide
  contains := by
    intro i j hi hj
    split <;> simp only [Rect.Contains] <;> omega
  same := by
    intro i j i' j' hi hj
    split <;> intro h <;> simp only [Rect.Contains] at h
    · rw [if_pos (by omega)]
    · rw [if_neg (by omega)]
  inside := by
    intro i j hi hj
    split <;> exact ⟨by decide, by decide⟩

theorem html_readers_agree_sample :
    renderHtml sampleHtml = ascii "<table><tr><td colspan=\"1\" rowspan=\"2\">a</td>" ++
      ascii "<td colspan=\"1\" rowspan=\"2\">b > c</td></tr><tr></tr></table>" ∧
    ∃ table, findElement (ascii "table") (parseMarkup .html (renderHtml sampleHtml)) = some table ∧
      chandraTableCells table = sampleHtml.rects.map spanOf ∧
      deepseekTableCells (renderHtml sampleHtml) = sampleHtml.rects.map spanOf ∧
      ∀ cells ∈ [chandraTableCells table, deepseekTableCells (renderHtml sampleHtml)],
        (fillSpanTable (fun cell => cell.text.length + 20) cells).2.truncated = false ∧
        (fillSpanTable (fun cell => cell.text.length + 20) cells).1.numRows = 2 ∧
        (fillSpanTable (fun cell => cell.text.length + 20) cells).1.numCols = 2 :=
  ⟨by decide, html_readers_agree _ sampleHtml (by decide) (by decide) (by decide)⟩

end VlmConvert.L2

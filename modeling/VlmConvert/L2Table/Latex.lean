import VlmConvert.L1Text.MarkdownInline
import VlmConvert.L2Table.HtmlTable

/-!
# LaTeX tables

`src/mapping/nemotron.cpp:86-381`. A `tabular` is split into rows and entries,
each entry is unwrapped to a cell, and the cells are laid out: an empty entry
under a cell from above is covered, a text there ends that cell. The layout is
written as an HTML table, which the Chandra reader places again.

A pushed cell carries its row and the column it was pushed at; the source
keeps the rows apart and drops the column.
-/
namespace VlmConvert.L2

open Bytes L1

namespace Latex

/-! ## Groups and separators -/

/-- Behind an opening brace, to the brace that closes it; `skip`: the byte
stands behind a backslash. -/
def groupBody : Bool → Nat → Bytes → Option (Bytes × Bytes)
  | _, _, [] => none
  | true, depth, c :: rest => (groupBody false depth rest).map fun r => (c :: r.1, r.2)
  | false, depth, c :: rest =>
    if c == 0x5C then (groupBody true depth rest).map fun r => (c :: r.1, r.2)
    else if c == 0x7B then (groupBody false (depth + 1) rest).map fun r => (c :: r.1, r.2)
    else if c == 0x7D then
      if depth = 0 then some ([], rest)
      else (groupBody false (depth - 1) rest).map fun r => (c :: r.1, r.2)
    else (groupBody false depth rest).map fun r => (c :: r.1, r.2)

/-- mirrors src/mapping/nemotron.cpp:88-114 -/
def readGroup (l : Bytes) : Option (Bytes × Bytes) :=
  match l.dropWhile isSpace with
  | [] => none
  | c :: rest => if c == 0x7B then groupBody false 0 rest else none

/-- The parts at depth 0, behind `part`; `drop` bytes still belong to the last
separator, and `copy` means that the byte stands behind a backslash. -/
def splitFrom (separator : Bytes) : Nat → Bool → Nat → Bytes → Bytes → List Bytes
  | _, _, _, part, [] => [part]
  | drop + 1, copy, depth, part, _ :: rest => splitFrom separator drop copy depth part rest
  | 0, true, depth, part, c :: rest => splitFrom separator 0 false depth (part ++ [c]) rest
  | 0, false, depth, part, c :: rest =>
    if depth = 0 ∧ separator.isPrefixOf (c :: rest) then
      part :: splitFrom separator (separator.length - 1) false 0 [] rest
    else if c == 0x5C then splitFrom separator 0 true depth (part ++ [c]) rest
    else
      let depth := if c == 0x7B then depth + 1 else if c == 0x7D then depth - 1 else depth
      splitFrom separator 0 false depth (part ++ [c]) rest

/-- mirrors src/mapping/nemotron.cpp:116-142 -/
def splitTopLevel (text separator : Bytes) : List Bytes := splitFrom separator 0 false 0 [] text

/-! ## Commands -/

def readGroups : Nat → Bytes → Option (List Bytes × Bytes)
  | 0, l => some ([], l)
  | n + 1, l =>
    match readGroup l with
    | none => none
    | some (group, rest) => (readGroups n rest).map fun r => (group :: r.1, r.2)

/-- What stands behind a command joins its last argument. -/
def appendLast (rest : Bytes) : List Bytes → List Bytes
  | [] => []
  | [arg] => [if rest.isEmpty then arg else arg ++ 0x20 :: rest]
  | arg :: args => arg :: appendLast rest args

/-- mirrors src/mapping/nemotron.cpp:144-173 -/
def unwrapCommand (text command : Bytes) (argCount : Nat) : Option (List Bytes) :=
  let stripped := trim text
  let name := 0x5C :: command
  let behind := stripped.drop name.length
  if !name.isPrefixOf stripped || behind.head?.any isAlpha then none
  else
    match readGroups argCount behind with
    | none => none
    | some (args, left) => some (appendLast (trim ((trim left).dropWhile (· == 0x7D))) args)

def kMaxLatexColumns : Nat := 1000

/-- mirrors src/mapping/nemotron.cpp:175-188 -/
def spanValue (value : Bytes) : Nat :=
  let digits := (trim value).dropWhile (· == 0x30)
  if digits.isEmpty || !digits.all isDigit then 1
  else if digits.length > 4 then kMaxLatexColumns + 1
  else min (ofDigits digits) (kMaxLatexColumns + 1)

/-! ## Cell text -/

def escapeHtmlByte (c : UInt8) : Bytes :=
  if c == 0x26 then ascii "&amp;"
  else if c == 0x3C then ascii "&lt;"
  else if c == 0x3E then ascii "&gt;"
  else [c]

def kCommands : List (Bytes × Bytes) :=
  [(ascii "textless", ascii "&lt;"), (ascii "textgreater", ascii "&gt;"),
    (ascii "textasciitilde", ascii "~"), (ascii "linebreak", ascii "<br>"), (ascii "mbox", [])]

def kTags : List Bytes := ["b", "br", "code", "em", "i", "strong", "sub", "sup", "u"].map ascii

/-- A text command behind its backslash: what it stands for, and its length
with the backslash. -/
def textCommand (rest : Bytes) : Option (Bytes × Nat) :=
  kCommands.findSome? fun command =>
    let behind := rest.drop command.1.length
    if command.1.isPrefixOf rest && !behind.head?.any isAlpha then
      some (command.2, 1 + command.1.length + if (ascii "\x7b\x7d").isPrefixOf behind then 2 else 0)
    else none

/-- An inline formatting tag without attributes. -/
def inlineTag (l : Bytes) : Option Bytes :=
  let slash := if (l.drop 1).head? == some 0x2F then 1 else 0
  let body := l.drop (1 + slash)
  let name := body.takeWhile isAlpha
  let spaces := (body.drop name.length).takeWhile isSpace
  let close := body.drop (name.length + spaces.length)
  let slash' := if close.head? == some 0x2F then 1 else 0
  if kTags.contains (name.map toLower) && (close.drop slash').head? == some 0x3E then
    some (l.take (1 + slash + name.length + spaces.length + slash' + 1))
  else none

/-- What is not plain text at a position, and its length. -/
def cellMarkup (l : Bytes) : Option (Bytes × Nat) :=
  match l with
  | [] => none
  | c :: rest =>
    if c == 0x5C then
      match rest with
      | [] => none
      | next :: _ =>
        if next == 0x26 then some (ascii "&amp;", 2)
        else if next == 0x25 || next == 0x23 || next == 0x24 then some ([next], 2)
        else textCommand rest
    else if c == 0x3C then (inlineTag l).map fun tag => (tag, tag.length)
    else none

def escapeFrom : Nat → Bytes → Bytes
  | _, [] => []
  | skip + 1, _ :: rest => escapeFrom skip rest
  | 0, c :: rest =>
    match cellMarkup (c :: rest) with
    | some (out, n) => out ++ escapeFrom (n - 1) rest
    | none => escapeHtmlByte c ++ escapeFrom 0 rest

/-- mirrors src/mapping/nemotron.cpp:190-281 -/
def escapeCellMarkup (text : Bytes) : Bytes := escapeFrom 0 text

/-! ## Cells -/

/-- mirrors src/mapping/nemotron.cpp:283-288 -/
structure LatexCell where
  text : Bytes := []
  rowSpan : Nat := 1
  colSpan : Nat := 1
  header : Bool := false
  deriving DecidableEq, Repr

/-- The commands around a cell's text. -/
def unwrapCell : Nat → LatexCell → Bytes → LatexCell × Bytes
  | 0, cell, text => (cell, text)
  | n + 1, cell, text =>
    match unwrapCommand text (ascii "multicolumn") 3 with
    | some args => unwrapCell n { cell with colSpan := spanValue (args.getD 0 []) } (args.getD 2 [])
    | none =>
      match unwrapCommand text (ascii "multirow") 3 with
      | some args =>
          unwrapCell n { cell with rowSpan := spanValue (args.getD 0 []) } (args.getD 2 [])
      | none =>
        match unwrapCommand text (ascii "thead") 1 with
        | some args => unwrapCell n { cell with header := true } (args.getD 0 [])
        | none => (cell, text)

/-! A command's arguments are shorter than the text, so the loop ends by
itself. -/

theorem groupBody_length : ∀ {l body rest : Bytes} {skip : Bool} {depth : Nat},
    groupBody skip depth l = some (body, rest) → body.length + rest.length + 1 ≤ l.length := by
  intro l
  induction l with
  | nil =>
    intro body rest skip depth h
    cases skip <;> cases h
  | cons c l ih =>
    intro body rest skip depth h
    have hmap : ∀ {skip' : Bool} {depth' : Nat},
        (groupBody skip' depth' l).map (fun r => (c :: r.1, r.2)) = some (body, rest) →
        body.length + rest.length + 1 ≤ (c :: l).length := by
      intro skip' depth' h
      obtain ⟨⟨body', rest'⟩, hbody, he⟩ := Option.map_eq_some_iff.1 h
      cases he
      have := ih hbody
      simp only [List.length_cons]
      omega
    cases skip with
    | true => exact hmap h
    | false =>
      rw [groupBody] at h
      split at h
      · exact hmap h
      · split at h
        · exact hmap h
        · split at h
          · split at h
            · cases h
              simp
            · exact hmap h
          · exact hmap h

theorem readGroup_length {l group rest : Bytes} (h : readGroup l = some (group, rest)) :
    group.length + rest.length + 2 ≤ l.length := by
  have hle := (List.dropWhile_suffix (l := l) isSpace).length_le
  unfold readGroup at h
  split at h
  · cases h
  · rename_i c body hdrop
    rw [hdrop, List.length_cons] at hle
    split at h
    · have := groupBody_length h
      omega
    · cases h

theorem readGroups_length :
    ∀ {n : Nat} {l rest : Bytes} {args : List Bytes}, readGroups n l = some (args, rest) →
    rest.length ≤ l.length ∧ ∀ arg ∈ args, arg.length + rest.length + 2 ≤ l.length := by
  intro n
  induction n with
  | zero =>
    intro l rest args h
    cases h
    exact ⟨Nat.le_refl _, by simp⟩
  | succ n ih =>
    intro l rest args h
    rw [readGroups] at h
    split at h
    · cases h
    · rename_i group left hgroup
      obtain ⟨⟨args', rest'⟩, hargs, he⟩ := Option.map_eq_some_iff.1 h
      obtain ⟨hargs', hrest'⟩ := Prod.mk.inj he
      dsimp only at hargs' hrest'
      subst hargs' hrest'
      have hlen := readGroup_length hgroup
      obtain ⟨hrest, hall⟩ := ih hargs
      refine ⟨by omega, ?_⟩
      rintro arg (_ | ⟨_, harg⟩)
      · omega
      · have := hall arg harg
        omega

theorem mem_appendLast {rest arg : Bytes} : ∀ {args : List Bytes}, arg ∈ appendLast rest args →
    ∃ arg' ∈ args, arg.length ≤ arg'.length + rest.length + 1 := by
  intro args
  induction args with
  | nil => intro h; cases h
  | cons first args ih =>
    intro h
    cases args with
    | nil =>
      refine ⟨first, List.mem_cons_self, ?_⟩
      rw [List.mem_singleton.1 h]
      split
      · omega
      · simp only [List.length_append, List.length_cons]
        omega
    | cons second args =>
      rcases List.mem_cons.1 h with rfl | h
      · exact ⟨arg, List.mem_cons_self, by omega⟩
      · obtain ⟨arg', hmem, hle⟩ := ih h
        exact ⟨arg', List.mem_cons_of_mem first hmem, hle⟩

theorem unwrapCommand_length {text command arg : Bytes} {n : Nat} {args : List Bytes}
    (h : unwrapCommand text command n = some args) (harg : arg ∈ args) :
    arg.length < text.length := by
  unfold unwrapCommand at h
  dsimp only at h
  split at h
  · cases h
  · split at h
    · cases h
    · rename_i groups left hgroups
      cases h
      obtain ⟨arg', hmem, hle⟩ := mem_appendLast harg
      have hread := (readGroups_length hgroups).2 arg' hmem
      have hdrop : (trim ((trim left).dropWhile (· == 0x7D))).length ≤ left.length :=
        (length_trim_le _).trans (((List.dropWhile_suffix _).length_le).trans (length_trim_le left))
      have htext := length_trim_le text
      rw [List.length_drop, List.length_cons] at hread
      omega

/-- The commands a cell is unwrapped from. -/
def unwraps (text : Bytes) : Bool :=
  (unwrapCommand text (ascii "multicolumn") 3).isSome ||
    (unwrapCommand text (ascii "multirow") 3).isSome ||
    (unwrapCommand text (ascii "thead") 1).isSome

/-- The loop ends where no command is left. -/
theorem unwrapCell_done : ∀ (n : Nat) (cell : LatexCell) {text : Bytes}, text.length ≤ n →
    unwraps (unwrapCell n cell text).2 = false := by
  intro n
  induction n with
  | zero =>
    intro cell text h
    rw [List.eq_nil_of_length_eq_zero (Nat.le_zero.1 h)]
    rfl
  | succ n ih =>
    intro cell text h
    have hshort : ∀ {command : Bytes} {k : Nat} {args : List Bytes} (i : Nat),
        unwrapCommand text command k = some args → (args.getD i []).length ≤ n := by
      intro command k args i hargs
      rw [List.getD_eq_getElem?_getD]
      cases hi : args[i]? with
      | none => exact Nat.zero_le n
      | some arg =>
        have := unwrapCommand_length hargs (List.mem_of_getElem? hi)
        exact Nat.le_of_lt_succ (Nat.lt_of_lt_of_le this h)
    rw [unwrapCell]
    split
    · rename_i args hargs
      exact ih _ (hshort 2 hargs)
    · rename_i hcolumn
      split
      · rename_i args hargs
        exact ih _ (hshort 2 hargs)
      · rename_i hrow
        split
        · rename_i args hargs
          exact ih _ (hshort 0 hargs)
        · rename_i hhead
          simp [unwraps, hcolumn, hrow, hhead]

/-- mirrors src/mapping/nemotron.cpp:290-308 -/
def parseLatexCell (text : Bytes) : LatexCell :=
  let r := unwrapCell text.length {} text
  { r.1 with text := trim (escapeCellMarkup r.2) }

/-! ## The layout -/

/-- A cell where it was pushed. -/
structure PushedCell extends LatexCell where
  row : Nat
  col : Nat
  deriving DecidableEq, Repr

/-- The pushed cells in order, and the last one pushed over each column. -/
structure Layout where
  cells : List PushedCell := []
  owners : List (Nat × Nat) := []
  deriving DecidableEq, Repr

def Layout.cell (s : Layout) (i : Nat) : PushedCell := s.cells.getD i { row := 0, col := 0 }

/-- The cell from above that reaches a row at a column. -/
def Layout.owner (s : Layout) (rowIndex col : Nat) : Option Nat :=
  (s.owners.lookup col).filter fun i => decide ((s.cell i).row + (s.cell i).rowSpan > rowIndex)

/-- A text under a cell ends it. -/
def Layout.shorten (s : Layout) (i rowIndex : Nat) : Layout :=
  { s with cells := s.cells.modify i fun cell => { cell with rowSpan := rowIndex - cell.row } }

def Layout.push (s : Layout) (rowIndex col : Nat) (cell : LatexCell) : Layout where
  cells := s.cells ++ [{ cell with row := rowIndex, col := col }]
  owners := (List.range' col cell.colSpan).map (fun c => (c, s.cells.length)) ++ s.owners

/-- The entries of a row, from column `col` on; `none`: too wide.
mirrors src/mapping/nemotron.cpp:330-358 -/
def layoutRow (rowIndex : Nat) : List LatexCell → Layout → Nat → Option Layout
  | [], s, _ => some s
  | cell :: cells, s, col =>
    if (s.owner rowIndex col).isSome && cell.text.isEmpty then
      layoutRow rowIndex cells s (col + cell.colSpan)
    else
      let s := match s.owner rowIndex col with
        | some i => s.shorten i rowIndex
        | none => s
      if col + cell.colSpan > kMaxLatexColumns then none
      else layoutRow rowIndex cells (s.push rowIndex col cell) (col + cell.colSpan)

def layoutRows : Nat → List (List LatexCell) → Layout → Option Layout
  | _, [], s => some s
  | rowIndex, entries :: rows, s =>
    match layoutRow rowIndex entries s 0 with
    | none => none
    | some s => layoutRows (rowIndex + 1) rows s

/-- What stands inside the environment, if there is one.
mirrors src/mapping/nemotron.cpp:311-323 -/
def tabularBody (latex : Bytes) : Bytes :=
  let body := match findSub (ascii "\\begin\x7btabular\x7d") latex with
    | none => latex
    | some (_, rest) =>
      let behind := rest.drop (ascii "\\begin\x7btabular\x7d").length
      match readGroup behind with
      | some (_, left) => left
      | none => behind
  match findSub (ascii "\\end\x7btabular\x7d") body with
  | none => body
  | some (before, _) => before

/-- The entries of the rows that are not blank.
mirrors src/mapping/nemotron.cpp:324-335 -/
def tabularRows (latex : Bytes) : List (List LatexCell) :=
  ((splitTopLevel (tabularBody latex) (ascii "\\\\")).filter fun row => !(trim row).isEmpty).map
    fun row => (splitTopLevel row (ascii "&")).map parseLatexCell

/-- The rows of pushed cells; `none`: a row is wider than 1000 columns. -/
def latexGrid (latex : Bytes) : Option (List (List PushedCell)) :=
  let rows := tabularRows latex
  (layoutRows 0 rows {}).map fun s => (List.range rows.length).map fun r =>
    s.cells.filter (·.row == r)

/-! ## HTML -/

def cellTag (cell : PushedCell) : Bytes := if cell.header then ascii "th" else ascii "td"

def openCell (cell : PushedCell) : Bytes :=
  ascii "<" ++ cellTag cell ++ (if cell.header then ascii " scope=\"col\"" else []) ++
    ascii " rowspan=\"" ++ decimal cell.rowSpan ++ ascii "\" colspan=\"" ++ decimal cell.colSpan ++
      ascii "\">"

def renderCell (cell : PushedCell) : Bytes :=
  openCell cell ++ markdownInlineHtml cell.text ++ ascii "</" ++ cellTag cell ++ ascii ">"

def renderRow (cells : List PushedCell) : Bytes :=
  ascii "<tr>" ++ cells.flatMap renderCell ++ ascii "</tr>"

def renderTable (grid : List (List PushedCell)) : Bytes :=
  ascii "<table>" ++ grid.flatMap renderRow ++ ascii "</table>"

/-- mirrors src/mapping/nemotron.cpp:310-381 -/
def latexTabularToHtml (latex : Bytes) : Option Bytes := (latexGrid latex).map renderTable

end Latex

end VlmConvert.L2

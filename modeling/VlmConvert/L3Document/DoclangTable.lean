import VlmConvert.L2Table.OtslGrid
import VlmConvert.L2Table.SpanTable
import VlmConvert.L3Document.Doclang

/-!
# DocLang tables against OTSL tables

`DocLangBuilder::otsl_cells` (`src/mapping/doclang.cpp:660-747`) reads the
table language of `Otsl` a second time, from the children of a `<table>`:
elements for the tokens, their text in the text nodes behind them, and
whitespace nodes anywhere.

Beside its row and column counters it keeps the matrix of tags, blank rows
erased, for the spans. It scans the run to the right only when the node
behind the cell's text is a filler, and behind an `ecel` it looks at the very
next node: a whitespace node there hides the filler.

Result: `otslCells_agree_iff`.
-/
namespace VlmConvert.L3.Doclang

open Bytes L1 L2

/-! ## The reader -/

/-- mirrors src/mapping/doclang.cpp:34-35 -/
def kOtslTokens : List Bytes :=
  ["fcel", "ecel", "lcel", "ucel", "xcel", "nl", "ched", "rhed", "srow", "corn"].map ascii

/-- mirrors src/mapping/doclang.cpp:677-679 -/
def kOrigins : List Bytes := ["fcel", "ecel", "ched", "rhed", "srow", "corn"].map ascii

def kContinuations : List Bytes := ["lcel", "ucel", "xcel"].map ascii

/-- The token of a node, empty for text and other elements.
mirrors src/mapping/doclang.cpp:680-683 -/
def tokenOf (node : MarkupNode) : Bytes :=
  if !node.isText && kOtslTokens.contains node.tag then node.tag else []

/-- mirrors src/mapping/doclang.cpp:665-674 -/
def addTag (rows : List (List Bytes)) (node : MarkupNode) : List (List Bytes) :=
  if node.isText || !kOtslTokens.contains node.tag then rows
  else if node.tag == ascii "nl" then rows ++ [[]]
  else rows.modify (rows.length - 1) (· ++ [node.tag])

/-- The matrix of tags, empty rows erased.
mirrors src/mapping/doclang.cpp:664-675 -/
def tagRows (body : List MarkupNode) : List (List Bytes) :=
  (body.foldl addTag [[]]).filter fun row => !row.isEmpty

/-- What a node adds to the text of the cell before it.
mirrors src/mapping/doclang.cpp:705-711 -/
def partText (part : MarkupNode) : Bytes :=
  match part with
  | .text text => trim text
  | .element tag _ _ => if tag != ascii "location" then getText part else []

def isPart (part : MarkupNode) : Bool :=
  match part with
  | .text text => !blank text
  | .element tag _ _ => tag != ascii "location"

/-- mirrors src/mapping/doclang.cpp:724-730 -/
def rightRun (rows : List (List Bytes)) (r c : Nat) : Nat :=
  (((rows.getD r []).drop (c + 1)).takeWhile isHorizontalFiller).length

/-- mirrors src/mapping/doclang.cpp:731-738 -/
def downRun (rows : List (List Bytes)) (r c : Nat) : Nat :=
  ((rows.drop (r + 1)).takeWhile fun row => (row[c]?.map isVerticalFiller).getD false).length

/-- The cells from a node on.
mirrors src/mapping/doclang.cpp:685-746 -/
def otslCellsFrom (rows : List (List Bytes)) : List MarkupNode → Nat → Nat → Bool → List SpanCell
  | [], _, _, _ => []
  | node :: rest, r, c, rowHasCells =>
    let t := tokenOf node
    if t.isEmpty then otslCellsFrom rows rest r c rowHasCells
    else if t == ascii "nl" then otslCellsFrom rows rest (if rowHasCells then r + 1 else r) 0 false
    else
      let isText := fun part => (tokenOf part).isEmpty
      let parts := if t != ascii "ecel" then rest.takeWhile isText else []
      let next := if t != ascii "ecel" then rest.dropWhile isText else rest
      let text := parts.flatMap partText
      let continuation := kContinuations.contains t
      let right := (next.head?.map tokenOf).getD []
      let cell : SpanCell := {
        row := r
        col := c
        rowSpan := 1 + downRun rows r c
        colSpan := if isHorizontalFiller right then 1 + rightRun rows r c else 1
        text := trim text
        columnHeader := t == ascii "ched" || t == ascii "corn"
        rowHeader := t == ascii "rhed" || t == ascii "corn" }
      let cells := otslCellsFrom rows rest r
        (if kOrigins.contains t || continuation then c + 1 else c) true
      if continuation && (trim text).isEmpty && !parts.any isPart then cells else cell :: cells

/-- mirrors src/mapping/doclang.cpp:660-747 -/
def otslCells (body : List MarkupNode) : List SpanCell :=
  otslCellsFrom (tagRows body) body 0 0 false

/-! ## Token streams with whitespace -/

inductive DocKind
  | fcel | ecel | ched | rhed | lcel | ucel | xcel | nl
  deriving DecidableEq, Repr

def DocKind.tag : DocKind → Bytes
  | .fcel => ascii "fcel"
  | .ecel => ascii "ecel"
  | .ched => ascii "ched"
  | .rhed => ascii "rhed"
  | .lcel => ascii "lcel"
  | .ucel => ascii "ucel"
  | .xcel => ascii "xcel"
  | .nl => ascii "nl"

/-- The kinds that text may follow. -/
def DocKind.hasText : DocKind → Bool
  | .fcel | .ched | .rhed => true
  | _ => false

/-- A token, its text, and the whitespace nodes before and behind the text. -/
structure DocToken where
  kind : DocKind
  text : Bytes
  lead : List Bytes
  trail : List Bytes
  only_text : kind.hasText = false → text = []
  no_open : (0x3C : UInt8) ∉ text
  blanks : ∀ pad ∈ lead ++ trail, blank pad = true

def DocToken.textNodes (token : DocToken) : List MarkupNode :=
  token.lead.map .text ++ (if token.text.isEmpty then [] else [.text token.text]) ++
    token.trail.map .text

/-- The token as nodes. -/
def DocToken.nodes (token : DocToken) : List MarkupNode :=
  .element token.kind.tag [] [] :: token.textNodes

/-- A node list: whitespace, then the tokens. -/
def nodesOf (pads : List Bytes) (tokens : List DocToken) : List MarkupNode :=
  pads.map .text ++ tokens.flatMap DocToken.nodes

/-- The same stream as OTSL text. -/
def otslBody (tokens : List DocToken) : Bytes :=
  tokens.flatMap fun token => encodeToken ⟨token.kind.tag, token.text⟩

/-- The token as the OTSL reader sees it. -/
def DocToken.otsl (token : DocToken) : OtslToken := ⟨token.kind.tag, trim token.text⟩

/-! ## The kinds -/

section Kinds

theorem tag_nonempty (k : DocKind) : k.tag.isEmpty = false := by cases k <;> decide

theorem tag_token (k : DocKind) : kOtslTokens.contains k.tag = true := by cases k <;> decide

theorem tag_readable (k : DocKind) :
    isTagOpen (0x3C :: k.tag) = true ∧ k.tag.all (· != 0x3E) = true := by cases k <;> decide

theorem tag_nl (k : DocKind) : k.tag = ascii "nl" ↔ k = .nl := by cases k <;> decide

theorem tag_cell (k : DocKind) (h : k ≠ .nl) : isCellTag k.tag = true ∧ k.tag ≠ ascii "srow" ∧
    (kOrigins.contains k.tag || kContinuations.contains k.tag) = true := by
  cases k <;> first | exact absurd rfl h | decide

theorem tag_anchor (k : DocKind) (h : k ≠ .nl) :
    isAnchor k.tag = !kContinuations.contains k.tag := by
  cases k <;> first | exact absurd rfl h | decide

theorem tag_flags (k : DocKind) :
    (k.tag == ascii "corn") = false ∧ (k.tag == ascii "srow") = false := by
  cases k <;> decide

theorem hasText_not_continuation (k : DocKind) (h : kContinuations.contains k.tag = true) :
    k.hasText = false := by
  revert h
  cases k <;> decide

theorem ecel_no_text (k : DocKind) (h : k.tag = ascii "ecel") : k.hasText = false := by
  revert h
  cases k <;> decide

end Kinds

/-! ## The nodes of a token -/

section Nodes
variable (token : DocToken)

theorem tokenOf_text (text : Bytes) : tokenOf (.text text) = [] := rfl

theorem tokenOf_element (k : DocKind) : tokenOf (.element k.tag [] []) = k.tag := by
  have h : kOtslTokens.contains k.tag = true := tag_token k
  simp only [tokenOf, MarkupNode.isText, MarkupNode.tag, Bool.not_false, Bool.true_and, h, if_true]

theorem textNodes_text : ∀ node ∈ token.textNodes, ∃ text, node = .text text := by
  intro node hnode
  simp only [DocToken.textNodes, List.mem_append, List.mem_map] at hnode
  rcases hnode with (⟨pad, -, rfl⟩ | hnode) | ⟨pad, -, rfl⟩
  · exact ⟨pad, rfl⟩
  · split at hnode
    · cases hnode
    · exact ⟨_, List.mem_singleton.1 hnode⟩
  · exact ⟨pad, rfl⟩

theorem trim_blank {pad : Bytes} (h : blank pad = true) : trim pad = [] := by
  have hdrop : pad.dropWhile isBlank = [] :=
    List.dropWhile_eq_nil_iff.2 fun b hb => List.all_eq_true.1 h b hb
  rw [trim, hdrop]
  rfl

theorem partText_pads {pads : List Bytes} (h : ∀ pad ∈ pads, blank pad = true) :
    (pads.map MarkupNode.text).flatMap partText = [] ∧
      (pads.map MarkupNode.text).any isPart = false := by
  constructor
  · rw [List.flatMap_eq_nil_iff]
    intro node hnode
    obtain ⟨pad, hpad, rfl⟩ := List.mem_map.1 hnode
    exact trim_blank (h pad hpad)
  · rw [List.any_eq_false]
    intro node hnode
    obtain ⟨pad, hpad, rfl⟩ := List.mem_map.1 hnode
    simp [isPart, h pad hpad]

/-- The whitespace adds nothing to the text. -/
theorem partText_textNodes : token.textNodes.flatMap partText = trim token.text ∧
    (token.text = [] → token.textNodes.any isPart = false) := by
  obtain ⟨hlead, hlead'⟩ := partText_pads fun pad hp => token.blanks pad (List.mem_append_left _ hp)
  obtain ⟨htrail, htrail'⟩ :=
    partText_pads fun pad hp => token.blanks pad (List.mem_append_right _ hp)
  rw [DocToken.textNodes]
  constructor
  · rw [List.flatMap_append, List.flatMap_append, hlead, htrail, List.nil_append, List.append_nil]
    cases htext : token.text with
    | nil => rfl
    | cons b text => simp [partText]
  · intro htext
    rw [List.any_append, List.any_append, hlead', htrail', htext]
    rfl

end Nodes

/-! ## The rows of a stream -/

section Rows
variable {token : DocToken}

theorem rowsFrom_nl (h : token.kind = .nl) (row rest : List OtslToken) :
    rowsFrom row (token.otsl :: rest) = flushRow row ++ rowsFrom [] rest := by
  rw [rowsFrom, DocToken.otsl, if_pos ((tag_nl _).2 h)]

theorem rowsFrom_cell (h : token.kind ≠ .nl) (row rest : List OtslToken) :
    rowsFrom row (token.otsl :: rest) = rowsFrom (row ++ [token.otsl]) rest := by
  obtain ⟨hcell, hsrow, -⟩ := tag_cell token.kind h
  rw [rowsFrom, DocToken.otsl, if_neg fun he => h ((tag_nl _).1 he), if_neg (by simp [hcell]),
    if_neg hsrow]

/-- A row begun goes on to the next `nl`. -/
theorem rowsFrom_begun (tokens : List DocToken) : ∀ {row : List OtslToken}, row ≠ [] →
    ∃ more, rowsFrom row (tokens.map DocToken.otsl) =
      (row ++ (tokens.takeWhile fun token => token.kind != .nl).map DocToken.otsl) :: more := by
  induction tokens with
  | nil =>
    intro row hrow
    exact ⟨[], by cases row with
      | nil => exact absurd rfl hrow
      | cons first row => simp [rowsFrom, flushRow]⟩
  | cons token tokens ih =>
    intro row hrow
    by_cases hnl : token.kind = .nl
    · rw [List.map_cons, rowsFrom_nl hnl, List.takeWhile_cons_of_neg (by simp [hnl])]
      refine ⟨rowsFrom [] (tokens.map DocToken.otsl), ?_⟩
      cases row with
      | nil => exact absurd rfl hrow
      | cons first row => simp [flushRow]
    · obtain ⟨more, hmore⟩ :=
        ih (List.append_ne_nil_of_right_ne_nil row (List.cons_ne_nil token.otsl []))
      rw [List.map_cons, rowsFrom_cell hnl, List.takeWhile_cons_of_pos (by simp [hnl]), hmore]
      exact ⟨more, by simp⟩

theorem addTag_texts {nodes : List MarkupNode} (h : ∀ node ∈ nodes, ∃ text, node = .text text)
    (rows : List (List Bytes)) : nodes.foldl addTag rows = rows := by
  induction nodes with
  | nil => rfl
  | cons node nodes ih =>
    obtain ⟨text, rfl⟩ := h node List.mem_cons_self
    exact ih fun other hm => h other (List.mem_cons_of_mem _ hm)

theorem addTag_nl (h : token.kind = .nl) (rows : List (List Bytes)) :
    addTag rows (.element token.kind.tag [] []) = rows ++ [[]] := by
  simp only [addTag, MarkupNode.isText, MarkupNode.tag, (tag_nl _).2 h]
  rfl

theorem modify_concat {α : Type} (f : α → α) (x : α) : ∀ l : List α,
    (l ++ [x]).modify l.length f = l ++ [f x]
  | [] => rfl
  | y :: l => by
    rw [List.cons_append, List.length_cons, List.modify_succ_cons, modify_concat f x l]
    rfl

theorem addTag_cell (h : token.kind ≠ .nl) (done : List (List Bytes)) (row : List Bytes) :
    addTag (done ++ [row]) (.element token.kind.tag [] []) = done ++ [row ++ [token.kind.tag]] := by
  have htoken : kOtslTokens.contains token.kind.tag = true := tag_token _
  have hnl : (token.kind.tag == ascii "nl") = false :=
    beq_false_of_ne fun he => h ((tag_nl _).1 he)
  simp only [addTag, MarkupNode.isText, MarkupNode.tag, htoken, hnl, Bool.not_true, Bool.or_self,
    Bool.false_eq_true, if_false, List.length_append, List.length_singleton, Nat.add_sub_cancel]
  exact modify_concat _ _ _

/-- The matrix of tags behind the rows `done`. -/
theorem addTag_tokens (tokens : List DocToken) :
    ∀ (done : List (List Bytes)) (row : List OtslToken),
    ((tokens.flatMap DocToken.nodes).foldl addTag (done ++ [row.map OtslToken.tag])).filter
        (fun row => !row.isEmpty) =
      done.filter (fun row => !row.isEmpty) ++
        (rowsFrom row (tokens.map DocToken.otsl)).map (List.map OtslToken.tag) := by
  have hflush : ∀ row : List OtslToken, [row.map OtslToken.tag].filter (fun row => !row.isEmpty) =
      (flushRow row).map (List.map OtslToken.tag) := by
    intro row; cases row <;> rfl
  induction tokens with
  | nil =>
    intro done row
    rw [List.flatMap_nil, List.foldl_nil, List.filter_append, hflush]
    rfl
  | cons token tokens ih =>
    intro done row
    rw [List.flatMap_cons, List.foldl_append, DocToken.nodes, List.foldl_cons,
      addTag_texts (textNodes_text token), List.map_cons]
    by_cases hnl : token.kind = .nl
    · rw [addTag_nl hnl, rowsFrom_nl hnl]
      have hrest := ih (done ++ [row.map OtslToken.tag]) []
      rw [List.filter_append, hflush] at hrest
      rw [List.map_append, ← List.append_assoc]
      exact hrest
    · rw [addTag_cell hnl, rowsFrom_cell hnl]
      have hrest := ih done (row ++ [token.otsl])
      rw [List.map_append] at hrest
      exact hrest

theorem tagRows_nodesOf (pads : List Bytes) (tokens : List DocToken) :
    tagRows (nodesOf pads tokens) =
      (rowsFrom [] (tokens.map DocToken.otsl)).map (List.map OtslToken.tag) := by
  have hpads : ∀ node ∈ pads.map MarkupNode.text, ∃ text, node = .text text := by
    intro node hnode
    obtain ⟨pad, -, rfl⟩ := List.mem_map.1 hnode
    exact ⟨pad, rfl⟩
  rw [tagRows, nodesOf, List.foldl_append, addTag_texts hpads]
  exact addTag_tokens tokens [] []

theorem downRun_tags (rows : List (List OtslToken)) (r c : Nat) :
    1 + downRun (rows.map (List.map OtslToken.tag)) r c = rowSpan rows r c := by
  rw [downRun, rowSpan, ← List.map_drop, List.takeWhile_map, List.length_map]
  congr 4
  funext row
  simp [Function.comp_def]

theorem rightRun_tags (rows : List (List OtslToken)) (r c : Nat) :
    1 + rightRun (rows.map (List.map OtslToken.tag)) r c = colSpan (rows.getD r []) c := by
  have hrow : (rows.map (List.map OtslToken.tag)).getD r [] =
    (rows.getD r []).map OtslToken.tag := by
    rw [List.getD_eq_getElem?_getD, List.getD_eq_getElem?_getD, List.getElem?_map]
    cases rows[r]? <;> rfl
  rw [rightRun, colSpan, hrow, ← List.map_drop, List.takeWhile_map, List.length_map]
  rfl

end Rows

/-! ## The cells -/

/-- A whitespace node between an `ecel` and the filler behind it. -/
def gapped (token : DocToken) (rest : List DocToken) : Bool :=
  token.kind == .ecel && !(token.lead ++ token.trail).isEmpty &&
    (rest.head?.map fun next => isHorizontalFiller next.kind.tag).getD false

/-- No `ecel` is parted from a filler by whitespace. -/
def ungapped : List DocToken → Bool
  | [] => true
  | token :: rest => !gapped token rest && ungapped rest

/-- The cell of an anchor, as the OTSL reader has it. -/
def spanCell (rows : List (List OtslToken)) (token : DocToken) (r c : Nat) : SpanCell where
  row := r
  col := c
  rowSpan := rowSpan rows r c
  colSpan := colSpan (rows.getD r []) c
  text := trim token.text
  columnHeader := token.kind.tag == ascii "ched"
  rowHeader := token.kind.tag == ascii "rhed"

/-- The cells of the anchors of a stream, from a position on. -/
def anchorsFrom (rows : List (List OtslToken)) : List DocToken → Nat → Nat → List SpanCell
  | [], _, _ => []
  | token :: rest, r, c =>
    if token.kind = .nl then anchorsFrom rows rest (if c > 0 then r + 1 else r) 0
    else if isAnchor token.kind.tag then spanCell rows token r c :: anchorsFrom rows rest r (c + 1)
    else anchorsFrom rows rest r (c + 1)

section Cells
variable {token : DocToken}

theorem otslCellsFrom_texts {nodes : List MarkupNode}
    (h : ∀ node ∈ nodes, ∃ text, node = .text text)
    (rows : List (List Bytes)) (rest : List MarkupNode) (r c : Nat) (has : Bool) :
    otslCellsFrom rows (nodes ++ rest) r c has = otslCellsFrom rows rest r c has := by
  induction nodes with
  | nil => rfl
  | cons node nodes ih =>
    obtain ⟨text, rfl⟩ := h node List.mem_cons_self
    have hskip : otslCellsFrom rows (.text text :: (nodes ++ rest)) r c has =
        otslCellsFrom rows (nodes ++ rest) r c has := by
      rw [otslCellsFrom]
      rfl
    rw [List.cons_append, hskip]
    exact ih fun other hm => h other (List.mem_cons_of_mem _ hm)

/-- The token at the head of the nodes. -/
def headTag (tokens : List DocToken) : Bytes :=
  (tokens.head?.map fun token => token.kind.tag).getD []

theorem headTag_nodes (tokens : List DocToken) :
    ((tokens.flatMap DocToken.nodes).head?.map tokenOf).getD [] = headTag tokens := by
  cases tokens with
  | nil => rfl
  | cons token tokens => exact tokenOf_element token.kind

/-- What the reader looks at to see whether a filler follows. -/
def rightTag (token : DocToken) (rest : List DocToken) : Bytes :=
  if token.kind = .ecel ∧ (token.lead ++ token.trail) ≠ [] then [] else headTag rest

theorem takeWhile_texts {texts : List MarkupNode} (h : ∀ node ∈ texts, ∃ text, node = .text text)
    (tokens : List DocToken) :
    (texts ++ tokens.flatMap DocToken.nodes).takeWhile (fun part => (tokenOf part).isEmpty) =
      texts ∧
      (texts ++ tokens.flatMap DocToken.nodes).dropWhile (fun part => (tokenOf part).isEmpty) =
        tokens.flatMap DocToken.nodes := by
  have hall : ∀ node ∈ texts, (tokenOf node).isEmpty = true := by
    intro node hnode
    obtain ⟨text, rfl⟩ := h node hnode
    rfl
  have hhead : ∀ l : List MarkupNode, l = tokens.flatMap DocToken.nodes →
      l.takeWhile (fun part => (tokenOf part).isEmpty) = [] ∧
        l.dropWhile (fun part => (tokenOf part).isEmpty) = l := by
    intro l hl
    cases tokens with
    | nil => subst hl; exact ⟨rfl, rfl⟩
    | cons token tokens =>
      have hne : ¬ (tokenOf (.element token.kind.tag [] [])).isEmpty = true := by
        rw [tokenOf_element, tag_nonempty]; decide
      rw [List.flatMap_cons, DocToken.nodes, List.cons_append] at hl
      subst hl
      exact ⟨List.takeWhile_cons_of_neg hne, List.dropWhile_cons_of_neg hne⟩
  obtain ⟨htake, hdrop⟩ := hhead _ rfl
  rw [List.takeWhile_append_of_pos hall, List.dropWhile_append_of_pos hall, htake, hdrop]
  exact ⟨List.append_nil _, rfl⟩

/-- **One token read**: a cell of an anchor, nothing for a filler. -/
theorem otslCellsFrom_cell (h : token.kind ≠ .nl) (rows : List (List Bytes))
    (tokens : List DocToken)
    (r c : Nat) (has : Bool) :
    otslCellsFrom rows (token.nodes ++ tokens.flatMap DocToken.nodes) r c has =
      (if isAnchor token.kind.tag then
        [{ row := r, col := c, rowSpan := 1 + downRun rows r c,
           colSpan := if isHorizontalFiller (rightTag token tokens) then
             1 + rightRun rows r c else 1,
           text := trim token.text, columnHeader := token.kind.tag == ascii "ched",
           rowHeader := token.kind.tag == ascii "rhed" }]
      else []) ++ otslCellsFrom rows (tokens.flatMap DocToken.nodes) r (c + 1) true := by
  obtain ⟨htake, hdrop⟩ := takeWhile_texts (textNodes_text token) tokens
  obtain ⟨htext, hany⟩ := partText_textNodes token
  have hnl : (token.kind.tag == ascii "nl") = false :=
    beq_false_of_ne fun he => h ((tag_nl _).1 he)
  have horigin := (tag_cell token.kind h).2.2
  have hrest := otslCellsFrom_texts (textNodes_text token) rows (tokens.flatMap DocToken.nodes) r
    (c + 1) true
  rw [DocToken.nodes, List.cons_append, otslCellsFrom]
  simp only [tokenOf_element, tag_nonempty, hnl, Bool.false_eq_true, if_false, horigin,
    if_true, hrest, (tag_flags token.kind).1, Bool.or_false]
  by_cases hecel : token.kind = .ecel
  · have htag : token.kind.tag = ascii "ecel" := by rw [hecel]; rfl
    have hnone : token.text = [] := token.only_text (ecel_no_text _ htag)
    have hright : (((token.textNodes ++ tokens.flatMap DocToken.nodes).head?.map tokenOf).getD []) =
        rightTag token tokens := by
      rw [rightTag, DocToken.textNodes, hnone]
      cases hlead : token.lead with
      | nil =>
        cases htrail : token.trail with
        | nil => simpa using headTag_nodes tokens
        | cons pad trail => simp [hecel, tokenOf_text]
      | cons pad lead => simp [hecel, tokenOf_text]
    simp only [htag, bne_self_eq_false, Bool.false_eq_true, if_false, hright, List.flatMap_nil]
    rw [hnone]
    rfl
  · have htag : (token.kind.tag != ascii "ecel") = true := by
      revert hecel
      cases token.kind <;> decide
    have hright : rightTag token tokens = headTag tokens := by
      rw [rightTag, if_neg fun hand => hecel hand.1]
    simp only [htag, if_true, htake, hdrop, htext, headTag_nodes, hright, trim_trim, tag_anchor _ h]
    cases hcont : kContinuations.contains token.kind.tag with
    | false => simp
    | true =>
      have hnone : token.text = [] := token.only_text (hasText_not_continuation _ hcont)
      simp [hnone, hany hnone, show (trim ([] : Bytes)) = [] from rfl]

theorem otslCellsFrom_nl (h : token.kind = .nl) (rows : List (List Bytes)) (tokens : List DocToken)
    (r c : Nat) (has : Bool) :
    otslCellsFrom rows (token.nodes ++ tokens.flatMap DocToken.nodes) r c has =
      otslCellsFrom rows (tokens.flatMap DocToken.nodes) (if has then r + 1 else r) 0 false := by
  have hnl : (token.kind.tag == ascii "nl") = true := by rw [h]; rfl
  rw [DocToken.nodes, List.cons_append, otslCellsFrom]
  simp only [tokenOf_element, tag_nonempty, hnl, Bool.false_eq_true, if_false, if_true]
  exact otslCellsFrom_texts (textNodes_text token) rows _ _ _ _

/-- Behind an anchor the run of fillers starts with the next token. -/
theorem colSpan_begun {rows done : List (List OtslToken)} {row : List OtslToken}
    {tokens : List DocToken}
    (hrows : rows = done ++ rowsFrom (row ++ [token.otsl]) (tokens.map DocToken.otsl)) :
    colSpan (rows.getD done.length []) row.length = 1 ↔
      isHorizontalFiller (headTag tokens) = false := by
  obtain ⟨more, hmore⟩ := rowsFrom_begun tokens
    (List.append_ne_nil_of_right_ne_nil row (List.cons_ne_nil token.otsl []))
  have hget : rows.getD done.length [] = row ++ [token.otsl] ++
      (tokens.takeWhile fun token => token.kind != .nl).map DocToken.otsl := by
    rw [hrows, hmore]
    simp [List.getD_eq_getElem?_getD]
  have hdrop : (rows.getD done.length []).drop (row.length + 1) =
      (tokens.takeWhile fun token => token.kind != .nl).map DocToken.otsl := by
    rw [hget, List.drop_left' (by simp)]
  rw [colSpan, hdrop]
  cases tokens with
  | nil => simp [headTag, show isHorizontalFiller ([] : Bytes) = false from by decide]
  | cons next tokens =>
    have hhead : headTag (next :: tokens) = next.kind.tag := rfl
    rw [hhead]
    by_cases hnl : next.kind = .nl
    · simp [hnl, show isHorizontalFiller DocKind.nl.tag = false from by decide]
    · rw [List.takeWhile_cons_of_pos (by simp [hnl]), List.map_cons, List.takeWhile_cons]
      cases hfill : isHorizontalFiller next.kind.tag with
      | true => simp [DocToken.otsl, hfill]
      | false => simp [DocToken.otsl, hfill]

/-- The reader's column span is right unless whitespace hides the filler. -/
theorem colSpan_agree {rows done : List (List OtslToken)} {row : List OtslToken}
    {tokens : List DocToken}
    (hrows : rows = done ++ rowsFrom (row ++ [token.otsl]) (tokens.map DocToken.otsl)) :
    (if isHorizontalFiller (rightTag token tokens) then
        1 + rightRun (rows.map (List.map OtslToken.tag)) done.length row.length else 1) =
      colSpan (rows.getD done.length []) row.length ↔ gapped token tokens = false := by
  have hone := colSpan_begun hrows
  have hnil : isHorizontalFiller ([] : Bytes) = false := by decide
  have hhead : (tokens.head?.map fun next => isHorizontalFiller next.kind.tag).getD false =
      isHorizontalFiller (headTag tokens) := by
    cases tokens with
    | nil => exact hnil.symm
    | cons next tokens => rfl
  rw [rightRun_tags, gapped, hhead, rightTag]
  by_cases hgap : token.kind = .ecel ∧ token.lead ++ token.trail ≠ []
  · have hpads : (!(token.lead ++ token.trail).isEmpty) = true := by simpa using hgap.2
    rw [if_pos hgap, if_neg (by simp [hnil]), hgap.1, hpads]
    simp only [beq_self_eq_true, Bool.true_and]
    exact eq_comm.trans hone
  · have hclosed : (token.kind == .ecel && !(token.lead ++ token.trail).isEmpty) = false := by
      rw [Bool.eq_false_iff]
      intro hand
      rw [Bool.and_eq_true, beq_iff_eq] at hand
      exact hgap ⟨hand.1, by simpa using hand.2⟩
    rw [if_neg hgap, hclosed, Bool.false_and]
    cases hfill : isHorizontalFiller (headTag tokens) with
    | true => exact ⟨fun _ => rfl, fun _ => rfl⟩
    | false => exact ⟨fun _ => rfl, fun _ => (hone.2 hfill).symm⟩

/-- The two readers from a position on. -/
theorem otslCellsFrom_agree (tokens : List DocToken) : ∀ {rows done : List (List OtslToken)}
    {row : List OtslToken}, rows = done ++ rowsFrom row (tokens.map DocToken.otsl) →
    (otslCellsFrom (rows.map (List.map OtslToken.tag)) (tokens.flatMap DocToken.nodes) done.length
        row.length (!row.isEmpty) = anchorsFrom rows tokens done.length row.length ↔
      ungapped tokens = true) := by
  induction tokens with
  | nil => intro rows done row _; simp [otslCellsFrom, anchorsFrom, ungapped]
  | cons token tokens ih =>
    intro rows done row hrows
    rw [List.flatMap_cons, anchorsFrom, ungapped]
    by_cases hnl : token.kind = .nl
    · rw [List.map_cons, rowsFrom_nl hnl, ← List.append_assoc] at hrows
      have hrest := ih hrows
      have hdone : (if row.length > 0 then done.length + 1 else done.length) =
          (done ++ flushRow row).length := by
        cases row <;> simp [flushRow]
      have hhas : (if (!row.isEmpty) = true then done.length + 1 else done.length) =
          (done ++ flushRow row).length := by
        cases row <;> simp [flushRow]
      have hgap : gapped token tokens = false := by rw [gapped, hnl]; rfl
      rw [otslCellsFrom_nl hnl, if_pos hnl, hdone, hhas, hgap]
      exact hrest
    · rw [List.map_cons, rowsFrom_cell hnl] at hrows
      have hrest := ih hrows
      have hhas : (!(row ++ [token.otsl]).isEmpty) = true := by cases row <;> rfl
      rw [List.length_append, List.length_singleton, hhas] at hrest
      rw [otslCellsFrom_cell hnl, if_neg hnl]
      cases hanchor : isAnchor token.kind.tag with
      | true =>
        have hcols := colSpan_agree hrows
        simp only [if_true, List.singleton_append, List.cons.injEq, hrest, spanCell,
          SpanCell.mk.injEq, true_and, and_true, downRun_tags, hcols, Bool.and_eq_true,
          Bool.not_eq_true']
      | false =>
        have hgap : gapped token tokens = false := by
          have hecel : (token.kind == .ecel) = false := by
            revert hanchor
            cases token.kind <;> decide
          rw [gapped, hecel]
          rfl
        simp only [Bool.false_eq_true, if_false, List.nil_append, hrest, hgap, Bool.not_false,
          Bool.true_and]

end Cells

/-! ## The OTSL reader's cells, token by token -/

section Anchors
variable (rows : List (List OtslToken))

/-- The cell of a token of the matrix. -/
def cellsAt (r c : Nat) (token : OtslToken) : List TableCell :=
  if isAnchor token.tag then [anchorCell token r c (rowSpan rows r c) (colSpan (rows.getD r []) c)]
  else []

def rowAnchors (r : Nat) : Nat → List OtslToken → List TableCell
  | _, [] => []
  | c, token :: rest => cellsAt rows r c token ++ rowAnchors r (c + 1) rest

def rowsAnchors : Nat → List (List OtslToken) → List TableCell
  | _, [] => []
  | r, row :: rest => rowAnchors rows r 0 row ++ rowsAnchors (r + 1) rest

theorem rowAnchors_eq {r : Nat} (rest : List OtslToken) : ∀ {done : List OtslToken},
    rows.getD r [] = done ++ rest →
    ((List.range' done.length rest.length).filterMap fun c =>
      match (rows.getD r [])[c]? with
      | none => none
      | some token =>
        if isAnchor token.tag then
          some (anchorCell token r c (rowSpan rows r c) (colSpan (rows.getD r []) c))
        else none) = rowAnchors rows r done.length rest := by
  induction rest with
  | nil => intro done _; rfl
  | cons token rest ih =>
    intro done hrow
    have hget : (rows.getD r [])[done.length]? = some token := by rw [hrow]; simp
    have hrest := ih (show rows.getD r [] = done ++ [token] ++ rest by simpa using hrow)
    rw [List.length_append, List.length_singleton] at hrest
    rw [List.length_cons, List.range'_succ, List.filterMap_cons, hrest, rowAnchors, cellsAt, hget]
    dsimp only
    split <;> rename_i heq
    · split at heq
      · cases heq
      · rw [if_neg (by assumption)]; rfl
    · split at heq
      · rw [if_pos (by assumption), ← Option.some.inj heq]; rfl
      · cases heq

theorem anchorCells_eq : anchorCells rows = rowsAnchors rows 0 rows := by
  have hfrom : ∀ (rest : List (List OtslToken)) {done : List (List OtslToken)},
    rows = done ++ rest →
      ((List.range' done.length rest.length).flatMap fun r =>
        (List.range (rows.getD r []).length).filterMap fun c =>
          match (rows.getD r [])[c]? with
          | none => none
          | some token =>
            if isAnchor token.tag then
              some (anchorCell token r c (rowSpan rows r c) (colSpan (rows.getD r []) c))
            else none) = rowsAnchors rows done.length rest := by
    intro rest
    induction rest with
    | nil => intro done _; rfl
    | cons row rest ih =>
      intro done hrows
      have hget : rows.getD done.length [] = row := by
        rw [hrows]; simp [List.getD_eq_getElem?_getD]
      have hrow := rowAnchors_eq rows (rows.getD done.length []) (List.nil_append _).symm
      have hrest := ih (show rows = done ++ [row] ++ rest by simpa using hrows)
      rw [List.length_append, List.length_singleton] at hrest
      rw [List.length_cons, List.range'_succ, List.flatMap_cons, hrest, rowsAnchors,
        List.range_eq_range']
      rw [List.length_nil, hget] at hrow
      rw [hget, hrow]
  rw [anchorCells, List.range_eq_range']
  exact hfrom rows (List.nil_append _).symm

theorem rowAnchors_concat (r : Nat) (token : OtslToken) : ∀ (row : List OtslToken) (c : Nat),
    rowAnchors rows r c (row ++ [token]) =
      rowAnchors rows r c row ++ cellsAt rows r (c + row.length) token := by
  intro row
  induction row with
  | nil => intro c; simp [rowAnchors]
  | cons first row ih =>
    intro c
    rw [List.cons_append, rowAnchors, rowAnchors, ih, List.append_assoc, List.length_cons,
      show c + 1 + row.length = c + (row.length + 1) by omega]

/-- A token's cell in both readers' terms. -/
theorem cellsAt_otsl (token : DocToken) (r c : Nat) : cellsAt rows r c token.otsl =
    (if isAnchor token.kind.tag then [spanCell rows token r c] else []).map wholeCell := by
  have htext : (if token.kind.tag == ascii "ecel" then [] else trim token.text) =
    trim token.text := by
    split
    · rename_i hecel
      rw [token.only_text (ecel_no_text _ (beq_iff_eq.1 hecel))]
      rfl
    · rfl
  rw [cellsAt, DocToken.otsl]
  split
  · simp only [List.map_cons, List.map_nil, anchorCell, wholeCell, spanCell, htext,
      (tag_flags token.kind).2]
  · rfl

theorem rowsAnchors_tokens (tokens : List DocToken) : ∀ (row : List OtslToken) (r : Nat),
    rowsAnchors rows r (rowsFrom row (tokens.map DocToken.otsl)) =
      rowAnchors rows r 0 row ++ (anchorsFrom rows tokens r row.length).map wholeCell := by
  have hflush : ∀ (row : List OtslToken) (r : Nat) (rest : List (List OtslToken)),
      rowsAnchors rows r (flushRow row ++ rest) = rowAnchors rows r 0 row ++
        rowsAnchors rows (if row.length > 0 then r + 1 else r) rest := by
    intro row r rest
    cases row <;> simp [flushRow, rowsAnchors, rowAnchors]
  induction tokens with
  | nil =>
    intro row r
    have hnil := hflush row r []
    rw [List.append_nil] at hnil
    rw [List.map_nil, rowsFrom, hnil]
    rfl
  | cons token tokens ih =>
    intro row r
    rw [List.map_cons, anchorsFrom]
    by_cases hnl : token.kind = .nl
    · rw [rowsFrom_nl hnl, hflush, if_pos hnl, ih]
      rfl
    · rw [rowsFrom_cell hnl, ih, if_neg hnl, rowAnchors_concat, List.append_assoc, Nat.zero_add,
        cellsAt_otsl, List.length_append, List.length_singleton]
      split <;> simp

end Anchors

/-! ## Agreement -/

theorem wholeCell_injective : Function.Injective wholeCell := by
  rintro ⟨row, col, rowSpan, colSpan, text, header, rowHeader⟩
    ⟨row', col', rowSpan', colSpan', text', header', rowHeader'⟩ h
  simp only [wholeCell, TableCell.mk.injEq] at h
  obtain ⟨rfl, rfl, rfl, -, rfl, rfl, rfl, -, rfl, -⟩ := h
  rfl

theorem noTag_of_no_open {text : Bytes} (h : (0x3C : UInt8) ∉ text) : noTag text = true := by
  induction text with
  | nil => rfl
  | cons b text ih =>
    rw [List.mem_cons, not_or] at h
    have hopen : isTagOpen (b :: text) = false := by
      cases text with
      | nil => rfl
      | cons c text => rw [isTagOpen, beq_false_of_ne (Ne.symm h.1), Bool.false_and]
    rw [noTag, hopen, ih h.2]
    rfl

theorem otslRows_otslBody (tokens : List DocToken) :
    otslRows (otslBody tokens) = rowsFrom [] (tokens.map DocToken.otsl) := by
  have hread := @tokens_encoded (tokens.map fun token => ⟨token.kind.tag, token.text⟩) (by
    intro token hm
    obtain ⟨source, -, rfl⟩ := List.mem_map.1 hm
    exact ⟨tag_readable source.kind, noTag_of_no_open source.no_open⟩)
  rw [List.flatMap_map, List.map_map] at hread
  rw [otslRows, otslBody, hread]
  rfl

/-- The cells of the OTSL reader within the caps. -/
theorem tableCells_otslBody (byteSizeLong : TableCell → Nat) (tokens : List DocToken)
    (hcaps : ¬ OverCaps (otslRows (otslBody tokens)).length (widest (otslRows (otslBody tokens)))) :
    ((parseOtslGrid byteSizeLong (otslBody tokens)).map fun table => table.1.tableCells).getD [] =
      (anchorsFrom (otslRows (otslBody tokens)) tokens 0 0).map wholeCell := by
  obtain ⟨hrows, hcols, hkeep⟩ := scanRows_spec (otslBody tokens)
  have hshape := hcaps
  simp only [OverCaps, not_or, Nat.not_lt] at hshape
  have hwhole := keptRegion_whole (otslRows (otslBody tokens))
    (keptTableShape_eq hshape.1 hshape.2.1 hshape.2.2)
  have hanchors : anchorCells (otslRows (otslBody tokens)) =
      (anchorsFrom (otslRows (otslBody tokens)) tokens 0 0).map wholeCell := by
    have htokens := rowsAnchors_tokens (otslRows (otslBody tokens)) tokens [] 0
    rw [← otslRows_otslBody] at htokens
    exact (anchorCells_eq _).trans htokens
  rw [← hanchors]
  unfold parseOtslGrid
  simp only [hrows, hcols, hkeep, hwhole]
  split
  · rename_i hempty
    rw [List.length_eq_zero_iff.1 hempty]
    rfl
  · rfl

/-- **The two readers agree** exactly when no whitespace parts an `ecel` from
the filler behind it. -/
theorem otslCells_agree_iff (byteSizeLong : TableCell → Nat) (pads : List Bytes)
    (tokens : List DocToken)
    (hcaps : ¬ OverCaps (otslRows (otslBody tokens)).length (widest (otslRows (otslBody tokens)))) :
    (otslCells (nodesOf pads tokens)).map wholeCell =
        ((parseOtslGrid byteSizeLong (otslBody tokens)).map fun table =>
          table.1.tableCells).getD [] ↔
      ungapped tokens = true := by
  have htexts : ∀ node ∈ pads.map MarkupNode.text, ∃ text, node = .text text := by
    intro node hnode
    obtain ⟨pad, -, rfl⟩ := List.mem_map.1 hnode
    exact ⟨pad, rfl⟩
  have hcells : otslCells (nodesOf pads tokens) =
      otslCellsFrom ((otslRows (otslBody tokens)).map (List.map OtslToken.tag))
        (tokens.flatMap DocToken.nodes) 0 0 false := by
    rw [otslCells, tagRows_nodesOf, ← otslRows_otslBody, nodesOf, otslCellsFrom_texts htexts]
  rw [tableCells_otslBody byteSizeLong tokens hcaps, hcells,
    (List.map_injective_iff.2 wholeCell_injective).eq_iff]
  exact otslCellsFrom_agree tokens
    (show otslRows (otslBody tokens) = [] ++ _ from otslRows_otslBody tokens)

/-- A token without text, followed by whitespace. -/
def bare (k : DocKind) (pads : List Bytes) (h : ∀ pad ∈ pads, blank pad = true) : DocToken :=
  ⟨k, [], [], pads, fun _ => rfl, List.not_mem_nil, by simpa using h⟩

/-- A header over two columns, a blank row, an empty cell and a text cell. -/
def sampleTokens : List DocToken :=
  [⟨.ched, ascii " a", [], [ascii " "], by decide, by decide, by decide⟩,
    bare .lcel [ascii " "] (by decide), bare .nl [] (by decide), bare .nl [] (by decide),
    bare .ecel [ascii " "] (by decide),
    ⟨.fcel, ascii "b", [ascii " "], [], by decide, by decide, by decide⟩]

theorem otslCells_agree_sample :
    ungapped sampleTokens = true ∧ (otslCells (nodesOf [ascii " "] sampleTokens)).map wholeCell =
      ((parseOtslGrid (fun cell => cell.text.length + 20) (otslBody sampleTokens)).map
        fun table => table.1.tableCells).getD [] :=
  ⟨by decide, (otslCells_agree_iff _ [ascii " "] sampleTokens (by decide)).2 (by decide)⟩

/-- An empty cell over two columns, with a line break between its tokens. -/
def gappedTokens : List DocToken :=
  [bare .ecel [[0x0A]] (by decide), bare .lcel [] (by decide)]

/-- The line break hides the filler from one of the readers. -/
theorem otslCells_gap :
    ¬ OverCaps (otslRows (otslBody gappedTokens)).length
      (widest (otslRows (otslBody gappedTokens))) ∧
      (otslCells (nodesOf [] gappedTokens)).map (fun cell => cell.colSpan) = [1] ∧
      (((parseOtslGrid (fun _ => 20) (otslBody gappedTokens)).map
        fun table => table.1.tableCells).getD []).map (fun cell => cell.colSpan) = [2] := by
  decide

end VlmConvert.L3.Doclang

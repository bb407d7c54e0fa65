import VlmConvert.L2Table.Table

/-!
# OTSL tables

`src/mapping/otsl.cpp`. An OTSL body is a stream of tokens, `<tag>` followed
by text, one per grid position; `<nl>` ends a row. `ched`, `rhed`, `fcel`,
`ecel` and `srow` anchor a cell; `lcel`, `ucel` and `xcel` are fillers that
extend the anchor to their left, above, or both.

`parseOtslGrid` scans the body twice (shape, then the tokens within the
caps), recovers each anchor's span from the run of fillers right of and
below it, and stamps the grid.

The scanner works on suffixes (`Core.Bytes`): `*pos` is what is left of the
body. `visit` is called once per cell token; `Scan.visits` records the calls.

Result: `parseOtslGrid_encode`, decoding undoes encoding for every tiling of
a grid within the caps.
-/
namespace VlmConvert.L2

open Bytes

/-! ## Tokens -/

/-- mirrors src/mapping/otsl.cpp:17-20 -/
structure OtslToken where
  tag : Bytes
  text : Bytes
  deriving DecidableEq, Repr

/-- mirrors src/mapping/otsl.cpp:22-32 -/
def isAnchor (tag : Bytes) : Bool :=
  tag == ascii "fcel" || tag == ascii "ecel" || tag == ascii "ched" || tag == ascii "rhed" ||
    tag == ascii "srow"

def isHorizontalFiller (tag : Bytes) : Bool := tag == ascii "lcel" || tag == ascii "xcel"

def isVerticalFiller (tag : Bytes) : Bool := tag == ascii "ucel" || tag == ascii "xcel"

/-- A '<' followed by a letter. -/
def isTagOpen : Bytes → Bool
  | a :: b :: _ => a == 0x3C && isAlpha b
  | _ => false

/-- The text before the next token opener, and the rest from it on (`[]`:
there is none).
mirrors src/mapping/otsl.cpp:36-46 -/
def findTag : Bytes → Bytes × Bytes
  | [] => ([], [])
  | b :: rest =>
    if isTagOpen (b :: rest) then ([], b :: rest)
    else (b :: (findTag rest).1, (findTag rest).2)

/-- One token and what is left; `none` at the end of the input.
mirrors src/mapping/otsl.cpp:50-66 -/
def nextToken (body : Bytes) : Option (OtslToken × Bytes) :=
  match (findTag body).2 with
  | [] => none
  | _ :: rest =>
    match rest.dropWhile (· != 0x3E) with
    | [] => none
    | _ :: after => some (⟨rest.takeWhile (· != 0x3E), trim (findTag after).1⟩, (findTag after).2)

theorem findTag_length (l : Bytes) : (findTag l).2.length ≤ l.length := by
  induction l with
  | nil => exact Nat.le_refl 0
  | cons b rest ih =>
    simp only [findTag]
    split
    · exact Nat.le_refl _
    · simp only [List.length_cons]; omega

/-- A token uses up input. -/
theorem nextToken_length {l rest : Bytes} {tok : OtslToken} (h : nextToken l = some (tok, rest)) :
    rest.length < l.length := by
  unfold nextToken at h
  split at h
  · cases h
  · rename_i b open_ hopen
    have h1 := findTag_length l
    rw [hopen, List.length_cons] at h1
    split at h
    · cases h
    · rename_i c after hafter
      simp only [Option.some.injEq, Prod.mk.injEq] at h
      have h2 := findTag_length after
      have h3 := List.length_dropWhile_le (fun x : UInt8 => x != 0x3E) open_
      rw [hafter, List.length_cons] at h3
      rw [← h.2]
      omega

/-- All tokens of a body, at most `n` of them. -/
def tokensAux : Nat → Bytes → List OtslToken
  | 0, _ => []
  | n + 1, l =>
    match nextToken l with
    | none => []
    | some (tok, rest) => tok :: tokensAux n rest

/-- The tokens `scan_rows` reads. -/
def tokens (body : Bytes) : List OtslToken := tokensAux body.length body

theorem tokensAux_nil (n : Nat) : tokensAux n [] = [] := by cases n <;> rfl

theorem tokensAux_eq : ∀ {n m : Nat} {l : Bytes}, l.length ≤ n → l.length ≤ m →
    tokensAux n l = tokensAux m l
  | 0, m, l, h, _ => by
    rw [List.length_eq_zero_iff.1 (Nat.le_zero.1 h), tokensAux_nil, tokensAux_nil]
  | n + 1, 0, l, _, h => by
    rw [List.length_eq_zero_iff.1 (Nat.le_zero.1 h), tokensAux_nil, tokensAux_nil]
  | n + 1, m + 1, l, hn, hm => by
    simp only [tokensAux]
    split
    · rfl
    · rename_i tok rest hnext
      have := nextToken_length hnext
      rw [tokensAux_eq (n := n) (m := m) (by omega) (by omega)]

/-- The scan loop reads one token and goes on behind it. -/
theorem tokens_eq (l : Bytes) :
    tokens l = match nextToken l with
      | none => []
      | some (tok, rest) => tok :: tokens rest := by
  cases l with
  | nil => rfl
  | cons b l =>
    simp only [tokens, List.length_cons, tokensAux]
    split
    · rfl
    · rename_i tok rest hnext
      have := nextToken_length hnext
      rw [List.length_cons] at this
      rw [tokensAux_eq (n := l.length) (m := rest.length) (by omega) (Nat.le_refl _)]

/-! ## Rows -/

/-- Where `scan_rows` stands, and the calls of `visit` so far. -/
structure Scan where
  row : Nat
  col : Nat
  rows : Nat
  cols : Nat
  visits : List (Nat × Nat × OtslToken)
  deriving DecidableEq, Repr

/-- A cell token at the current position. -/
def Scan.visit (s : Scan) (token : OtslToken) : Scan where
  row := s.row
  col := s.col + 1
  rows := max s.rows (s.row + 1)
  cols := max s.cols (s.col + 1)
  visits := s.visits ++ [(s.row, s.col, token)]

/-- A row break, unless the row is empty. -/
def Scan.newline (s : Scan) : Scan := if s.col > 0 then { s with row := s.row + 1, col := 0 } else s

/-- mirrors src/mapping/otsl.cpp:81-104 -/
def Scan.step (s : Scan) (token : OtslToken) : Scan :=
  if token.tag == ascii "nl" then s.newline
  else if !isAnchor token.tag && !isHorizontalFiller token.tag && !isVerticalFiller token.tag then s
  else if token.tag == ascii "srow" then s.newline.visit token
  else s.visit token

/-- mirrors src/mapping/otsl.cpp:73-107 -/
def scanRows (body : Bytes) : Scan := (tokens body).foldl Scan.step ⟨0, 0, 0, 0, []⟩

/-! ## The table -/

/-- The second scan: tokens within the kept shape, row by row.
mirrors src/mapping/otsl.cpp:127-133 -/
def keepRows (keptRows keptCols : Nat) (visits : List (Nat × Nat × OtslToken)) :
    List (List OtslToken) :=
  visits.foldl (fun rows v =>
    if v.1 < keptRows ∧ v.2.1 < keptCols then rows.modify v.1 (· ++ [v.2.2]) else rows)
    (List.replicate keptRows [])

/-- mirrors src/mapping/otsl.cpp:152-156 -/
def colSpan (row : List OtslToken) (c : Nat) : Nat :=
  1 + ((row.drop (c + 1)).takeWhile fun token => isHorizontalFiller token.tag).length

/-- mirrors src/mapping/otsl.cpp:157-162 -/
def rowSpan (rows : List (List OtslToken)) (r c : Nat) : Nat :=
  1 + ((rows.drop (r + 1)).takeWhile fun row =>
    (row[c]?.map fun token => isVerticalFiller token.tag).getD false).length

/-- mirrors src/mapping/otsl.cpp:163-174 -/
def anchorCell (token : OtslToken) (r c rowSpan colSpan : Nat) : TableCell where
  text := if token.tag == ascii "ecel" then [] else token.text
  columnHeader := token.tag == ascii "ched"
  rowHeader := token.tag == ascii "rhed"
  rowSection := token.tag == ascii "srow"
  rowSpan := rowSpan
  colSpan := colSpan
  startRow := r
  endRow := r + rowSpan
  startCol := c
  endCol := c + colSpan

/-- mirrors src/mapping/otsl.cpp:146-177 -/
def anchorCells (rows : List (List OtslToken)) : List TableCell :=
  (List.range rows.length).flatMap fun r =>
    let row := rows.getD r []
    (List.range row.length).filterMap fun c =>
      match row[c]? with
      | none => none
      | some token =>
        if isAnchor token.tag then some (anchorCell token r c (rowSpan rows r c) (colSpan row c))
        else none

/-- On a fresh `TableData`; `none` when the body holds no row.
mirrors src/mapping/otsl.cpp:111-220 -/
def parseOtslGrid (byteSizeLong : TableCell → Nat) (body : Bytes) : Option (TableData × TableCut) :=
  let scan := scanRows body
  if scan.rows = 0 then none
  else
    let kept := keptTableShape scan.rows scan.cols
    let rows := keepRows kept.1 kept.2 scan.visits
    let numCols := (rows.map List.length).foldl max 0
    let cells := anchorCells rows
    let fits := gridFits byteSizeLong rows.length numCols 0 cells
    some (⟨rows.length, numCols, cells, if fits then fillGrid rows.length numCols cells else []⟩,
      ⟨scan.rows, scan.cols, decide (kept.1 < scan.rows ∨ kept.2 < scan.cols), !fits⟩)

/-! ## Encoding a tiling -/

inductive Kind
  | ched | rhed | fcel | ecel
  deriving DecidableEq, Repr

def Kind.tag : Kind → Bytes
  | .ched => ascii "ched"
  | .rhed => ascii "rhed"
  | .fcel => ascii "fcel"
  | .ecel => ascii "ecel"

/-- No '<' followed by a letter. -/
def noTag : Bytes → Bool
  | [] => true
  | b :: rest => !isTagOpen (b :: rest) && noTag rest

/-- What a rectangle of an OTSL table carries. -/
structure OtslCell where
  kind : Kind
  text : Bytes
  trimmed : trim text = text
  no_tag : noTag text = true
  ecel_empty : kind = .ecel → text = []

def encodeToken (token : OtslToken) : Bytes := 0x3C :: (token.tag ++ 0x3E :: token.text)

/-- The token at a position: the rectangle's kind and text at its corner,
`lcel` in the rest of its first row, `ucel` in the rest of its first column,
`xcel` elsewhere. -/
def tokenAt (t : Tiling OtslCell) (i j : Nat) : OtslToken :=
  let r := t.cover i j
  if r.row = i then
    if r.col = j then ⟨r.value.kind.tag, r.value.text⟩ else ⟨ascii "lcel", []⟩
  else if r.col = j then ⟨ascii "ucel", []⟩ else ⟨ascii "xcel", []⟩

def rowTokens (t : Tiling OtslCell) (i : Nat) : List OtslToken :=
  (List.range t.cols).map (tokenAt t i) ++ [⟨ascii "nl", []⟩]

def encode (t : Tiling OtslCell) : Bytes :=
  ((List.range t.rows).flatMap (rowTokens t)).flatMap encodeToken

/-- The table cell a rectangle stands for. -/
def cellOf (r : Rect OtslCell) : TableCell where
  text := r.value.text
  columnHeader := r.value.kind == .ched
  rowHeader := r.value.kind == .rhed
  rowSection := false
  rowSpan := r.height
  colSpan := r.width
  startRow := r.row
  endRow := r.row + r.height
  startCol := r.col
  endCol := r.col + r.width

/-! ## Reading the encoding back -/

/-- What `encodeToken` needs for `nextToken` to find the token again. -/
structure OtslToken.Readable (token : OtslToken) : Prop where
  tag_ok : isTagOpen (0x3C :: token.tag) = true ∧ token.tag.all (· != 0x3E) = true
  no_tag : noTag token.text = true

/-- What `encodeToken` needs for `nextToken` to read the token back. -/
structure OtslToken.Ok (token : OtslToken) : Prop where
  tag_ok : isTagOpen (0x3C :: token.tag) = true ∧ token.tag.all (· != 0x3E) = true
  trimmed : trim token.text = token.text
  no_tag : noTag token.text = true

theorem OtslToken.Ok.readable {token : OtslToken} (h : token.Ok) : token.Readable :=
  ⟨h.tag_ok, h.no_tag⟩

/-- The end of the body, or a token opener. -/
def AtToken (l : Bytes) : Prop := l = [] ∨ isTagOpen l = true

theorem atToken_encode {token : OtslToken} (h : token.Readable) (rest : Bytes) :
    isTagOpen (encodeToken token ++ rest) = true := by
  have hopen := h.tag_ok.1
  simp only [encodeToken]
  cases htag : token.tag with
  | nil => rw [htag] at hopen; cases hopen
  | cons b tag => rw [htag] at hopen; exact hopen

/-- Text without a token opener, in front of the end or of a token. -/
theorem isTagOpen_append {b : UInt8} {text rest : Bytes} (ht : isTagOpen (b :: text) = false)
    (hr : AtToken rest) : isTagOpen (b :: (text ++ rest)) = false := by
  cases text with
  | cons c text => exact ht
  | nil =>
    -- a '<' at the end of the text stands before the next token's '<'
    cases rest with
    | nil => rfl
    | cons c rest =>
      rcases hr with hr | hr
      · cases hr
      · cases rest with
        | nil => cases hr
        | cons d rest =>
          simp only [isTagOpen, Bool.and_eq_true, beq_iff_eq] at hr
          rw [List.nil_append, hr.1]
          exact Bool.and_false _

/-- A scan for the next token stops behind text without one. -/
theorem findTag_append {text rest : Bytes} (ht : noTag text = true) (hr : AtToken rest) :
    findTag (text ++ rest) = (text, rest) := by
  induction text with
  | nil =>
    cases rest with
    | nil => rfl
    | cons b rest =>
      rcases hr with hr | hr
      · cases hr
      · rw [List.nil_append, findTag, if_pos hr]
  | cons b text ih =>
    simp only [noTag, Bool.and_eq_true, Bool.not_eq_true'] at ht
    rw [List.cons_append, findTag, isTagOpen_append ht.1 hr, ih ht.2]
    rfl

theorem nextToken_encode {token : OtslToken} (h : token.Readable) {rest : Bytes}
    (hr : AtToken rest) :
    nextToken (encodeToken token ++ rest) = some (⟨token.tag, trim token.text⟩, rest) := by
  have hform : encodeToken token ++ rest = 0x3C :: (token.tag ++ 0x3E :: (token.text ++ rest)) := by
    simp [encodeToken]
  have hfind : findTag (encodeToken token ++ rest) = ([], encodeToken token ++ rest) := by
    have hopen := atToken_encode h rest
    rw [hform] at hopen ⊢
    rw [findTag, if_pos hopen]
  have hne : ∀ b ∈ token.tag, (b != 0x3E) = true := List.all_eq_true.1 h.tag_ok.2
  have hdrop : (token.tag ++ 0x3E :: (token.text ++ rest)).dropWhile (· != 0x3E) =
      0x3E :: (token.text ++ rest) := by
    rw [List.dropWhile_append_of_pos hne]; rfl
  have htake : (token.tag ++ 0x3E :: (token.text ++ rest)).takeWhile (· != 0x3E) = token.tag := by
    rw [List.takeWhile_append_of_pos hne]; simp
  unfold nextToken
  rw [hfind, hform]
  simp only [hdrop, htake, findTag_append h.no_tag hr]

theorem atToken_flatMap {toks : List OtslToken} (h : ∀ token ∈ toks, token.Readable) :
    AtToken (toks.flatMap encodeToken) := by
  cases toks with
  | nil => exact .inl rfl
  | cons token toks =>
    exact .inr (atToken_encode (h token List.mem_cons_self) _)

/-- The scanner reads a token stream back, its texts trimmed. -/
theorem tokens_encoded {toks : List OtslToken} (h : ∀ token ∈ toks, token.Readable) :
    tokens (toks.flatMap encodeToken) = toks.map fun token => ⟨token.tag, trim token.text⟩ := by
  induction toks with
  | nil => rfl
  | cons token toks ih =>
    have hrest : ∀ tok ∈ toks, tok.Readable := fun tok ht => h tok (List.mem_cons_of_mem _ ht)
    rw [List.flatMap_cons, tokens_eq,
      nextToken_encode (h token List.mem_cons_self) (atToken_flatMap hrest)]
    simp only [ih hrest, List.map_cons]

theorem tokens_flatMap {toks : List OtslToken} (h : ∀ token ∈ toks, token.Ok) :
    tokens (toks.flatMap encodeToken) = toks := by
  rw [tokens_encoded fun token hm => (h token hm).readable]
  refine (List.map_congr_left fun token hm => ?_).trans (List.map_id' toks)
  rw [(h token hm).trimmed]

/-- The tags of an encoded tiling, `nl` aside. -/
def cellTags : List Bytes :=
  [ascii "ched", ascii "rhed", ascii "fcel", ascii "ecel", ascii "lcel", ascii "ucel", ascii "xcel"]

theorem kind_mem (k : Kind) : k.tag ∈ cellTags := by cases k <;> decide

theorem cellTags_ok : ∀ tag ∈ ascii "nl" :: cellTags,
    isTagOpen (0x3C :: tag) = true ∧ tag.all (· != 0x3E) = true := by decide

/-- Every position's token has a cell tag and a text that reads back. -/
theorem tokenAt_cases (t : Tiling OtslCell) (i j : Nat) :
    (tokenAt t i j).tag ∈ cellTags ∧
      (tokenAt t i j = ⟨(t.cover i j).value.kind.tag, (t.cover i j).value.text⟩ ∨
        (tokenAt t i j).text = []) := by
  unfold tokenAt
  simp only
  split
  · split
    · exact ⟨kind_mem _, .inl rfl⟩
    · exact ⟨by simp only; decide, .inr rfl⟩
  · split
    · exact ⟨by simp only; decide, .inr rfl⟩
    · exact ⟨by simp only; decide, .inr rfl⟩

theorem tokenAt_ok (t : Tiling OtslCell) (i j : Nat) : (tokenAt t i j).Ok := by
  obtain ⟨htag, htext⟩ := tokenAt_cases t i j
  have hok := cellTags_ok _ (List.mem_cons_of_mem _ htag)
  rcases htext with h | h
  · rw [h] at hok ⊢
    exact ⟨hok, (t.cover i j).value.trimmed, (t.cover i j).value.no_tag⟩
  · exact ⟨hok, by rw [h]; rfl, by rw [h]; rfl⟩

theorem nl_ok : (⟨ascii "nl", []⟩ : OtslToken).Ok := ⟨cellTags_ok _ List.mem_cons_self, rfl, rfl⟩

theorem tokens_encode (t : Tiling OtslCell) :
    tokens (encode t) = (List.range t.rows).flatMap (rowTokens t) := by
  refine tokens_flatMap fun token hm => ?_
  simp only [List.mem_flatMap, rowTokens, List.mem_append, List.mem_map, List.mem_singleton] at hm
  obtain ⟨i, -, ⟨j, -, rfl⟩ | rfl⟩ := hm
  · exact tokenAt_ok t i j
  · exact nl_ok

/-! ## Scanning it row by row -/

theorem cellTags_visit : ∀ tag ∈ cellTags, (tag == ascii "nl") = false ∧
    (!isAnchor tag && !isHorizontalFiller tag && !isVerticalFiller tag) = false ∧
    (tag == ascii "srow") = false := by decide

/-- Every token of a tiling but `nl` is a cell token, and none is `srow`. -/
theorem step_tokenAt (t : Tiling OtslCell) (i j : Nat) (s : Scan) :
    s.step (tokenAt t i j) = s.visit (tokenAt t i j) := by
  obtain ⟨h1, h2, h3⟩ := cellTags_visit _ (tokenAt_cases t i j).1
  simp only [Scan.step, h1, h2, h3, Bool.false_eq_true, if_false]

/-- The visits of row `i`. -/
def rowVisits (t : Tiling OtslCell) (i n : Nat) : List (Nat × Nat × OtslToken) :=
  (List.range n).map fun j => (i, j, tokenAt t i j)

/-- The first `n` tokens of row `i`. -/
theorem scan_cells (t : Tiling OtslCell) (i rows cols : Nat)
    (visits : List (Nat × Nat × OtslToken)) (n : Nat) :
    ((List.range n).map (tokenAt t i)).foldl Scan.step ⟨i, 0, rows, cols, visits⟩ =
      ⟨i, n, if n = 0 then rows else max rows (i + 1), max cols n, visits ++ rowVisits t i n⟩ := by
  induction n with
  | zero => simp [rowVisits]
  | succ n ih =>
    rw [List.range_succ, List.map_append, List.foldl_append, ih]
    simp only [List.map_cons, List.map_nil, List.foldl_cons, List.foldl_nil, step_tokenAt,
      Scan.visit]
    congr 1
    · split <;> simp
    · omega
    · simp [rowVisits, List.range_succ]

/-- A whole row with its `nl`. -/
theorem scan_row (t : Tiling OtslCell) (i rows cols : Nat)
    (visits : List (Nat × Nat × OtslToken)) :
    (rowTokens t i).foldl Scan.step ⟨i, 0, rows, cols, visits⟩ =
      ⟨i + 1, 0, max rows (i + 1), max cols t.cols, visits ++ rowVisits t i t.cols⟩ := by
  have hpos := t.cols_pos
  rw [rowTokens, List.foldl_append, scan_cells]
  have hnl : ((⟨ascii "nl", []⟩ : OtslToken).tag == ascii "nl") = true := by decide
  simp only [List.foldl_cons, List.foldl_nil, Scan.step, hnl, if_true, Scan.newline]
  rw [if_pos (show t.cols > 0 from hpos), if_neg (show t.cols ≠ 0 by omega)]

/-- The first `n` rows. -/
theorem scan_rows (t : Tiling OtslCell) (n : Nat) :
    ((List.range n).flatMap (rowTokens t)).foldl Scan.step ⟨0, 0, 0, 0, []⟩ =
      ⟨n, 0, n, if n = 0 then 0 else t.cols,
        (List.range n).flatMap fun i => rowVisits t i t.cols⟩ := by
  induction n with
  | zero => rfl
  | succ n ih =>
    rw [List.range_succ, List.flatMap_append, List.foldl_append, ih]
    simp only [List.flatMap_cons, List.flatMap_nil, List.append_nil, scan_row, List.flatMap_append]
    congr 1
    · omega
    · split <;> simp

theorem scanRows_encode (t : Tiling OtslCell) :
    scanRows (encode t) = ⟨t.rows, 0, t.rows, t.cols,
      (List.range t.rows).flatMap fun i => rowVisits t i t.cols⟩ := by
  have hpos := t.rows_pos
  rw [scanRows, tokens_encode, scan_rows, if_neg (by omega)]

/-! ## The kept rows -/

/-- The token matrix of a tiling. -/
def matrix (t : Tiling OtslCell) : List (List OtslToken) :=
  (List.range t.rows).map fun i => (List.range t.cols).map (tokenAt t i)

/-- Row `r` of the kept rows: the kept visits of row `r`, in order. -/
theorem getElem?_keepRows_aux {keptRows keptCols r : Nat} (hr : r < keptRows)
    (visits : List (Nat × Nat × OtslToken)) :
    ∀ (rows : List (List OtslToken)) (row : List OtslToken), rows[r]? = some row →
    (visits.foldl (fun rows v =>
      if v.1 < keptRows ∧ v.2.1 < keptCols then rows.modify v.1 (· ++ [v.2.2])
      else rows) rows)[r]? =
      some (row ++ (visits.filter fun v => decide (v.1 = r ∧ v.2.1 < keptCols)).map (·.2.2)) := by
  induction visits with
  | nil => intro rows row h; simpa using h
  | cons v visits ih =>
    intro rows row h
    rw [List.foldl_cons]
    by_cases hv : v.1 = r ∧ v.2.1 < keptCols
    · have hkeep : v.1 < keptRows ∧ v.2.1 < keptCols := ⟨by omega, hv.2⟩
      rw [if_pos hkeep, ih _ (row ++ [v.2.2]) (by rw [hv.1, List.getElem?_modify_eq, h]; rfl),
        List.filter_cons_of_pos (by simpa using hv)]
      simp
    · rw [List.filter_cons_of_neg (by simpa using hv)]
      split
      · rename_i hkeep
        have hne : v.1 ≠ r := fun e => hv ⟨e, hkeep.2⟩
        exact ih _ row (by rw [List.getElem?_modify_ne _ _ hne]; exact h)
      · exact ih _ row h

theorem length_keepRows (keptRows keptCols : Nat) (visits : List (Nat × Nat × OtslToken)) :
    (keepRows keptRows keptCols visits).length = keptRows := by
  have haux : ∀ (visits : List (Nat × Nat × OtslToken)) (rows : List (List OtslToken)),
      (visits.foldl (fun rows v =>
        if v.1 < keptRows ∧ v.2.1 < keptCols then rows.modify v.1 (· ++ [v.2.2]) else rows)
        rows).length = rows.length := by
    intro visits
    induction visits with
    | nil => intro rows; rfl
    | cons v visits ih =>
      intro rows
      rw [List.foldl_cons, ih]
      split
      · exact List.length_modify _ _ _
      · rfl
  rw [keepRows, haux, List.length_replicate]

theorem flatMap_range_single {α : Type} (f : Nat → List α) {r n : Nat} (hr : r < n) :
    (List.range n).flatMap (fun i => if i = r then f i else []) = f r := by
  induction n with
  | zero => omega
  | succ n ih =>
    rw [List.range_succ, List.flatMap_append, List.flatMap_singleton]
    by_cases h : n = r
    · subst h
      have hnil : (List.range n).flatMap (fun i => if i = n then f i else []) = [] := by
        rw [List.flatMap_eq_nil_iff]
        intro i hi
        rw [if_neg (by have := List.mem_range.1 hi; omega)]
      rw [hnil, if_pos rfl, List.nil_append]
    · rw [ih (by omega), if_neg h, List.append_nil]

theorem keepRows_visits (t : Tiling OtslCell) :
    keepRows t.rows t.cols ((List.range t.rows).flatMap fun i => rowVisits t i t.cols) =
      matrix t := by
  apply List.ext_getElem?
  intro r
  by_cases hr : r < t.rows
  · have hstart : (List.replicate t.rows ([] : List OtslToken))[r]? = some [] := by simp [hr]
    have hfilter : ∀ i, (rowVisits t i t.cols).filter (fun v => decide (v.1 = r ∧ v.2.1 < t.cols)) =
        if i = r then rowVisits t i t.cols else [] := by
      intro i
      split
      · rename_i hi
        refine List.filter_eq_self.2 fun v hv => ?_
        simp only [rowVisits, List.mem_map, List.mem_range] at hv
        obtain ⟨j, hj, rfl⟩ := hv
        simp [hi, hj]
      · rename_i hi
        refine List.filter_eq_nil_iff.2 fun v hv => ?_
        simp only [rowVisits, List.mem_map, List.mem_range] at hv
        obtain ⟨j, hj, rfl⟩ := hv
        simp [hi]
    rw [keepRows, getElem?_keepRows_aux hr _ _ [] hstart, List.filter_flatMap]
    simp only [hfilter]
    rw [flatMap_range_single (fun i => rowVisits t i t.cols) hr]
    simp [matrix, hr, rowVisits, Function.comp_def]
  · rw [List.getElem?_eq_none (by rw [length_keepRows]; omega),
      List.getElem?_eq_none (by simp only [matrix, List.length_map, List.length_range]; omega)]

theorem length_matrix (t : Tiling OtslCell) : (matrix t).length = t.rows := by simp [matrix]

theorem getElem?_matrix (t : Tiling OtslCell) {i : Nat} (hi : i < t.rows) :
    (matrix t)[i]? = some ((List.range t.cols).map (tokenAt t i)) := by simp [matrix, hi]

theorem numCols_matrix (t : Tiling OtslCell) :
    ((matrix t).map List.length).foldl max 0 = t.cols := by
  have hconst : (matrix t).map List.length = List.replicate t.rows t.cols := by
    simp [matrix, Function.comp_def]
  have hmax : ∀ n, (List.replicate n t.cols).foldl max t.cols = t.cols := by
    intro n
    induction n with
    | zero => rfl
    | succ n ih => rw [List.replicate_succ, List.foldl_cons, Nat.max_self]; exact ih
  obtain ⟨n, hn⟩ : ∃ n, t.rows = n + 1 := ⟨t.rows - 1, by have := t.rows_pos; omega⟩
  rw [hconst, hn, List.replicate_succ, List.foldl_cons, Nat.zero_max]
  exact hmax n

/-! ## Spans -/

section Spans
variable {t : Tiling OtslCell} {i j : Nat}

theorem tokenAt_corner (h : (t.cover i j).IsCorner i j) :
    tokenAt t i j = ⟨(t.cover i j).value.kind.tag, (t.cover i j).value.text⟩ := by
  simp only [tokenAt, h.1, h.2, if_true]

theorem kind_not_filler (k : Kind) : isAnchor k.tag = true ∧ isHorizontalFiller k.tag = false ∧
    isVerticalFiller k.tag = false := by cases k <;> decide

/-- A position is an anchor exactly at its rectangle's corner. -/
theorem isAnchor_tokenAt : isAnchor (tokenAt t i j).tag = decide ((t.cover i j).IsCorner i j) := by
  simp only [tokenAt, Rect.IsCorner]
  split
  · split
    · simp_all [(kind_not_filler _).1]
    · simp_all; decide
  · split
    · simp_all; decide
    · simp_all; decide

/-- A horizontal filler is a position off its rectangle's left edge. -/
theorem isHorizontalFiller_tokenAt :
    isHorizontalFiller (tokenAt t i j).tag = decide ((t.cover i j).col ≠ j) := by
  simp only [tokenAt]
  split
  · split
    · simp_all [(kind_not_filler _).2.1]
    · simp_all; decide
  · split
    · simp_all; decide
    · simp_all; decide

/-- A vertical filler is a position off its rectangle's top edge. -/
theorem isVerticalFiller_tokenAt :
    isVerticalFiller (tokenAt t i j).tag = decide ((t.cover i j).row ≠ i) := by
  simp only [tokenAt]
  split
  · split
    · simp_all [(kind_not_filler _).2.2]
    · simp_all; decide
  · split
    · simp_all; decide
    · simp_all; decide

/-- The run of horizontal fillers behind a corner is its rectangle's width. -/
theorem colSpan_corner (hi : i < t.rows) (hj : j < t.cols) (hc : (t.cover i j).IsCorner i j) :
    colSpan ((List.range t.cols).map (tokenAt t i)) j = (t.cover i j).width := by
  obtain ⟨h1, h2, h3, h4⟩ := t.contains hi hj
  have hin := t.inside hi hj
  have hmem : t.cover i j ∈ t.rects := Tiling.mem_rects.2 ⟨i, j, hi, hj, rfl⟩
  have hcol := hc.2
  have hrun : ((((List.range t.cols).map (tokenAt t i)).drop (j + 1)).takeWhile
      fun token => isHorizontalFiller token.tag).length = (t.cover i j).width - 1 := by
    apply takeWhile_drop_length
    · intro k hk1 hk2
      refine ⟨tokenAt t i k, by rw [List.getElem?_map, List.getElem?_range (by omega)]; rfl, ?_⟩
      have hsame : t.cover i k = t.cover i j := t.same hi hj ⟨h1, h2, by omega, by omega⟩
      rw [isHorizontalFiller_tokenAt, hsame]
      simp only [decide_eq_true_eq]; omega
    · intro x hx
      simp only [List.getElem?_map, Option.map_eq_some_iff] at hx
      obtain ⟨k, hk, rfl⟩ := hx
      obtain ⟨hlt, rfl⟩ := List.getElem?_eq_some_iff.1 hk
      simp only [List.length_range] at hlt
      have hpos : j + 1 + ((t.cover i j).width - 1) = (t.cover i j).col + (t.cover i j).width := by
        omega
      have hedge := Tiling.right_edge hmem h1 h2 (by omega)
      rw [List.getElem_range, isHorizontalFiller_tokenAt, hpos, hedge]
      simp
  rw [colSpan, hrun]
  omega

/-- The run of vertical fillers below a corner is its rectangle's height. -/
theorem rowSpan_corner (hi : i < t.rows) (hj : j < t.cols) (hc : (t.cover i j).IsCorner i j) :
    rowSpan (matrix t) i j = (t.cover i j).height := by
  obtain ⟨h1, h2, h3, h4⟩ := t.contains hi hj
  have hin := t.inside hi hj
  have hmem : t.cover i j ∈ t.rects := Tiling.mem_rects.2 ⟨i, j, hi, hj, rfl⟩
  have hrow := hc.1
  have hget : ∀ k, (((List.range t.cols).map (tokenAt t k))[j]?.map
      fun token => isVerticalFiller token.tag).getD false =
        isVerticalFiller (tokenAt t k j).tag := by
    intro k; simp [hj]
  have hrun : (((matrix t).drop (i + 1)).takeWhile fun row =>
      (row[j]?.map fun token => isVerticalFiller token.tag).getD false).length =
      (t.cover i j).height - 1 := by
    apply takeWhile_drop_length
    · intro k hk1 hk2
      refine ⟨_, getElem?_matrix t (by omega), ?_⟩
      have hsame : t.cover k j = t.cover i j := t.same hi hj ⟨by omega, by omega, h3, h4⟩
      rw [hget, isVerticalFiller_tokenAt, hsame]
      simp only [decide_eq_true_eq]; omega
    · intro x hx
      obtain ⟨hlt, -⟩ := List.getElem?_eq_some_iff.1 hx
      rw [length_matrix] at hlt
      rw [getElem?_matrix t hlt, Option.some.injEq] at hx
      subst hx
      have hpos : i + 1 + ((t.cover i j).height - 1) =
        (t.cover i j).row + (t.cover i j).height := by
        omega
      have hedge := Tiling.bottom_edge hmem h3 h4 (by omega)
      rw [hget, isVerticalFiller_tokenAt, hpos, hedge]
      simp
  rw [rowSpan, hrun]
  omega

end Spans

/-! ## Decoding undoes encoding -/

/-- The cell read at a corner is its rectangle's. -/
theorem anchorCell_kind (cell : OtslCell) (r c h w : Nat) :
    anchorCell ⟨cell.kind.tag, cell.text⟩ r c h w = cellOf ⟨r, c, h, w, cell⟩ := by
  have htext : (if cell.kind.tag == ascii "ecel" then [] else cell.text) = cell.text := by
    split
    · rename_i he
      have hk : cell.kind = .ecel := by
        revert he
        cases cell.kind <;> decide
      exact (cell.ecel_empty hk).symm
    · rfl
  have hched : (cell.kind.tag == ascii "ched") = (cell.kind == .ched) := by
    cases cell.kind <;> decide
  have hrhed : (cell.kind.tag == ascii "rhed") = (cell.kind == .rhed) := by
    cases cell.kind <;> decide
  have hsrow : (cell.kind.tag == ascii "srow") = false := by cases cell.kind <;> decide
  simp only [anchorCell, cellOf, htext, hched, hrhed, hsrow]

theorem anchorCells_matrix (t : Tiling OtslCell) : anchorCells (matrix t) = t.rects.map cellOf := by
  rw [anchorCells, length_matrix, Tiling.rects, List.map_flatMap]
  refine List.flatMap_congr fun i hi => ?_
  have hi' := List.mem_range.1 hi
  have hrow : (matrix t).getD i [] = (List.range t.cols).map (tokenAt t i) := by
    rw [List.getD_eq_getElem?_getD, getElem?_matrix t hi']; rfl
  simp only [hrow, List.length_map, List.length_range, Tiling.rowRects, List.map_filterMap]
  refine List.filterMap_congr fun j hj => ?_
  have hj' := List.mem_range.1 hj
  rw [List.getElem?_map, List.getElem?_range hj', Option.map_some]
  simp only [isAnchor_tokenAt, decide_eq_true_eq]
  by_cases hc : (t.cover i j).IsCorner i j
  · rw [if_pos hc, if_pos hc, Option.map_some, tokenAt_corner hc, rowSpan_corner hi' hj' hc,
      colSpan_corner hi' hj' hc, anchorCell_kind]
    have hrect : (⟨i, j, (t.cover i j).height, (t.cover i j).width, (t.cover i j).value⟩ :
        Rect OtslCell) = t.cover i j := by
      obtain ⟨hr, hcol⟩ := hc
      generalize t.cover i j = r at hr hcol ⊢
      subst hr; subst hcol; rfl
    rw [hrect]
  · rw [if_neg hc, if_neg hc, Option.map_none]

theorem covers_cellOf {r : Rect OtslCell} {i j : Nat} : (cellOf r).Covers i j ↔ r.Contains i j :=
  Iff.rfl

/-- The grid holds at each position the cell of the rectangle that covers it. -/
theorem cellAt_grid (t : Tiling OtslCell) {i j : Nat} (hi : i < t.rows) (hj : j < t.cols) :
    cellAt (fillGrid t.rows t.cols (t.rects.map cellOf)) i j = some (cellOf (t.cover i j)) := by
  have hmem : t.cover i j ∈ t.rects := Tiling.mem_rects.2 ⟨i, j, hi, hj, rfl⟩
  refine cellAt_fillGrid hi hj (fun cell hcell hcov => ?_) (List.mem_map_of_mem hmem)
    (covers_cellOf.2 (t.contains hi hj))
  obtain ⟨r, hr, rfl⟩ := List.mem_map.1 hcell
  rw [Tiling.eq_of_contains hr hmem (covers_cellOf.1 hcov) (t.contains hi hj)]

/-- **OTSL decode undoes encode**, for every tiling within the table caps and
whatever the size of a cell on the wire. -/
theorem parseOtslGrid_encode (byteSizeLong : TableCell → Nat) (t : Tiling OtslCell)
    (hrows : t.rows ≤ kMaxTableRows) (hcols : t.cols ≤ kMaxTableCols)
    (hcells : t.rows * t.cols ≤ kMaxTableCells) :
    ∃ data cut, parseOtslGrid byteSizeLong (encode t) = some (data, cut) ∧
      cut.truncated = false ∧ data.numRows = t.rows ∧ data.numCols = t.cols ∧
      data.tableCells = t.rects.map cellOf ∧
      (cut.gridOmitted = false → ∀ i j, i < t.rows → j < t.cols →
        cellAt data.grid i j = some (cellOf (t.cover i j))) := by
  have hpos := t.rows_pos
  unfold parseOtslGrid
  simp only [scanRows_encode, keptTableShape_eq hrows hcols hcells, keepRows_visits, length_matrix,
    numCols_matrix, anchorCells_matrix]
  rw [if_neg (by omega)]
  refine ⟨_, _, rfl, by simp, rfl, rfl, rfl, fun hfits i j hi hj => ?_⟩
  simp only [Bool.not_eq_false'] at hfits
  simp only [hfits, if_true]
  exact cellAt_grid t hi hj

/-- A cell whose text ends in a stray '<'. -/
def sampleBody : OtslCell := ⟨.fcel, ascii "a > b <", by decide, by decide, by decide⟩

def sampleHeader : OtslCell := ⟨.ched, ascii "h", by decide, by decide, by decide⟩

def sampleEmpty : OtslCell := ⟨.ecel, [], rfl, rfl, fun _ => rfl⟩

/-- A 2×2 cell, a header beside it and an empty cell below that. -/
def sampleCover (i j : Nat) : Rect OtslCell :=
  if j < 2 then ⟨0, 0, 2, 2, sampleBody⟩
  else if i = 0 then ⟨0, 2, 1, 1, sampleHeader⟩
  else ⟨1, 2, 1, 1, sampleEmpty⟩

theorem sampleCover_contains {i j : Nat} (hi : i < 2) (hj : j < 3) :
    (sampleCover i j).Contains i j := by
  unfold sampleCover
  split
  · simp only [Rect.Contains]; omega
  · split <;> simp only [Rect.Contains] <;> omega

theorem sampleCover_same {i j i' j' : Nat} (h : (sampleCover i j).Contains i' j') :
    sampleCover i' j' = sampleCover i j := by
  unfold sampleCover at h ⊢
  split at h
  · rename_i hj
    simp only [Rect.Contains] at h
    rw [if_pos hj, if_pos (by omega)]
  · rename_i hj
    split at h
    · rename_i hi
      simp only [Rect.Contains] at h
      rw [if_neg hj, if_pos hi, if_neg (by omega), if_pos (by omega)]
    · rename_i hi
      simp only [Rect.Contains] at h
      rw [if_neg hj, if_neg hi, if_neg (by omega), if_neg (by omega)]

theorem sampleCover_inside (i j : Nat) :
    (sampleCover i j).row + (sampleCover i j).height ≤ 2 ∧
      (sampleCover i j).col + (sampleCover i j).width ≤ 3 := by
  unfold sampleCover
  split
  · exact ⟨by decide, by decide⟩
  · split <;> exact ⟨by decide, by decide⟩

def sampleTiling : Tiling OtslCell where
  rows := 2
  cols := 3
  cover := sampleCover
  rows_pos := Nat.le_add_left 1 1
  cols_pos := Nat.le_add_left 1 2
  contains := sampleCover_contains
  same _ _ := sampleCover_same
  inside _ _ := sampleCover_inside _ _

theorem parseOtslGrid_encode_sample :
    encode sampleTiling = ascii "<fcel>a > b <<lcel><ched>h<nl><ucel><xcel><ecel><nl>" ∧
      ∃ data cut, parseOtslGrid (fun cell => cell.text.length + 20) (encode sampleTiling) =
          some (data, cut) ∧
        cut.truncated = false ∧ data.numRows = 2 ∧ data.numCols = 3 ∧
        data.tableCells = sampleTiling.rects.map cellOf ∧
        (cut.gridOmitted = false → ∀ i j, i < 2 → j < 3 →
          cellAt data.grid i j = some (cellOf (sampleTiling.cover i j))) :=
  ⟨by decide, parseOtslGrid_encode _ sampleTiling (by decide) (by decide) (by decide)⟩

end VlmConvert.L2

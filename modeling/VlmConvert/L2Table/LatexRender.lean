import VlmConvert.Core.Tiling
import VlmConvert.L2Table.LatexLayout

/-!
# Tilings as LaTeX tables

A tiling of plain texts is written as a `tabular`: a rectangle is an entry at
its corner, in `\multirow` and `\multicolumn` as far as it needs them, and one
empty entry at each position below its first row. The environment around the
rows is optional.

Splitting passes over a rendered entry at any depth (`Passed`), reading a group
does too (`GroupPassed`), and neither needle of the environment starts in the
rows (`Skips`).

Results:
* `split_intercalate`: joined parts split into themselves.
* `parseLatexCell_renderEntry`: an entry is unwrapped to its rectangle.
* `tabularRows_renderLatex`: the rows of entries of a rendered tiling.
-/
namespace VlmConvert.L2.Latex

open Bytes L1

/-! ## Rendering -/

/-- Letters, digits and single inner spaces. -/
structure PlainText where
  text : Bytes
  plain : ∀ b ∈ text, (isAlpha b || isDigit b || b == 0x20) = true
  trimmed : trim text = text
  normalised : collapseWhitespace text = text

def braced (x : Bytes) : Bytes := 0x7B :: (x ++ [0x7D])

/-- A command and its three arguments. -/
def command (name a b x : Bytes) : Bytes := 0x5C :: (name ++ (braced a ++ (braced b ++ braced x)))

/-- The text of a rectangle, over its rows. -/
def renderInner (r : Rect PlainText) : Bytes :=
  if r.height > 1 then command (ascii "multirow") (decimal r.height) (ascii "*") r.value.text
  else r.value.text

def renderEntry (r : Rect PlainText) : Bytes :=
  if r.width > 1 then command (ascii "multicolumn") (decimal r.width) (ascii "c") (renderInner r)
  else renderInner r

/-- The entries at a position: the rectangle at its corner, nothing right of
the corner, an empty entry below the first row. -/
def entriesAt (t : Tiling PlainText) (i j : Nat) : List Bytes :=
  if (t.cover i j).row = i then if (t.cover i j).col = j then [renderEntry (t.cover i j)] else []
  else [[]]

def rowEntries (t : Tiling PlainText) (i : Nat) : List Bytes :=
  (List.range t.cols).flatMap (entriesAt t i)

def renderLatexRow (t : Tiling PlainText) (i : Nat) : Bytes :=
  (ascii "&").intercalate (rowEntries t i)

def renderLatexRows (t : Tiling PlainText) : Bytes :=
  (ascii "\\\\").intercalate ((List.range t.rows).map (renderLatexRow t))

/-- A column specification. -/
structure ColumnSpec where
  text : Bytes
  plain : ∀ b ∈ text, b ≠ 0x5C ∧ b ≠ 0x7B ∧ b ≠ 0x7D

/-- The rows, in a `tabular` environment or without one. -/
def renderLatex (spec : Option ColumnSpec) (t : Tiling PlainText) : Bytes :=
  match spec with
  | none => renderLatexRows t
  | some spec => ascii "\\begin\x7btabular\x7d" ++
      (braced spec.text ++ (renderLatexRows t ++ ascii "\\end\x7btabular\x7d"))

/-! ## Splitting -/

/-- Splitting takes `x` into the current part, at any depth. -/
def Passed (separator x : Bytes) : Prop :=
  ∀ depth part rest, splitFrom separator 0 false depth part (x ++ rest) =
    splitFrom separator 0 false depth (part ++ x) rest

theorem passed_nil (separator : Bytes) : Passed separator [] := by
  intro depth part rest
  rw [List.append_nil]
  rfl

theorem Passed.append {separator x y : Bytes} (hx : Passed separator x) (hy : Passed separator y) :
    Passed separator (x ++ y) := by
  intro depth part rest
  rw [List.append_assoc, hx, hy, List.append_assoc]

/-- A byte that neither nests nor starts the separator. -/
theorem passed_byte {separator : Bytes} {c : UInt8} (h1 : c ≠ 0x5C) (h2 : c ≠ 0x7B) (h3 : c ≠ 0x7D)
    (hsep : separator.head? = some c → False) (hne : separator ≠ []) : Passed separator [c] := by
  intro depth part rest
  have hno : separator.isPrefixOf (c :: rest) = false := by
    cases separator with
    | nil => exact absurd rfl hne
    | cons s separator =>
      have hs : s ≠ c := fun he => hsep (by rw [he]; rfl)
      simp [List.isPrefixOf, hs]
  rw [List.singleton_append, splitFrom, hno]
  simp [h1, h2, h3]

theorem passed_bytes {separator : Bytes} (hne : separator ≠ []) : ∀ {x : Bytes},
    (∀ c ∈ x, c ≠ 0x5C ∧ c ≠ 0x7B ∧ c ≠ 0x7D ∧ separator.head? ≠ some c) → Passed separator x := by
  intro x
  induction x with
  | nil => intro _; exact passed_nil separator
  | cons c x ih =>
    intro h
    obtain ⟨h1, h2, h3, h4⟩ := h c List.mem_cons_self
    exact (passed_byte h1 h2 h3 h4 hne).append (ih fun b hb => h b (List.mem_cons_of_mem c hb))

/-- A command's backslash and the byte behind it. -/
theorem passed_backslash {separator : Bytes} {c : UInt8}
    (hno : ∀ rest, separator.isPrefixOf (0x5C :: c :: rest) = false) :
    Passed separator [0x5C, c] := by
  intro depth part rest
  show splitFrom separator 0 false depth part (0x5C :: c :: rest) = _
  rw [splitFrom, hno]
  simp only [Bool.false_eq_true, and_false, if_false, beq_self_eq_true, if_true]
  show splitFrom separator 0 false depth (part ++ [0x5C] ++ [c]) rest = _
  rw [List.append_assoc]
  rfl

theorem Passed.braced {separator x : Bytes} (hx : Passed separator x)
    (hsep : separator.head? ≠ some 0x7B)
    (hne : separator ≠ []) : Passed separator (braced x) := by
  intro depth part rest
  have hno : separator.isPrefixOf (0x7B :: (x ++ [0x7D] ++ rest)) = false := by
    cases separator with
    | nil => exact absurd rfl hne
    | cons s separator =>
      have hs : s ≠ 0x7B := fun he => hsep (by rw [he]; rfl)
      simp [List.isPrefixOf, hs]
  have hclose : ∀ part, splitFrom separator 0 false (depth + 1) part (0x7D :: rest) =
      splitFrom separator 0 false depth (part ++ [0x7D]) rest := by
    intro part
    rw [splitFrom, if_neg (by omega)]
    rfl
  show splitFrom separator 0 false depth part (0x7B :: (x ++ [0x7D] ++ rest)) = _
  rw [splitFrom, hno, if_neg (by simp)]
  show splitFrom separator 0 false (depth + 1) (part ++ [0x7B]) (x ++ [0x7D] ++ rest) = _
  rw [List.append_assoc, hx, List.singleton_append, hclose]
  simp [Latex.braced]

theorem splitFrom_drop (separator : Bytes) : ∀ (x : Bytes) (part rest : Bytes),
    splitFrom separator x.length false 0 part (x ++ rest) =
      splitFrom separator 0 false 0 part rest := by
  intro x
  induction x with
  | nil => intro part rest; rfl
  | cons c x ih => intro part rest; exact ih part rest

/-- **Joined parts split into themselves.** -/
theorem split_intercalate {separator : Bytes} (hne : separator ≠ []) :
    ∀ {parts : List Bytes}, parts ≠ [] →
    (∀ x ∈ parts, Passed separator x) → splitTopLevel (separator.intercalate parts) separator =
      parts := by
  intro parts
  induction parts with
  | nil => intro h; exact absurd rfl h
  | cons x parts ih =>
    intro _ h
    have hx := h x List.mem_cons_self
    cases parts with
    | nil =>
      have hone := hx 0 [] []
      rw [List.append_nil, List.nil_append] at hone
      rw [List.intercalate_singleton, splitTopLevel, hone]
      rfl
    | cons y parts =>
      obtain ⟨s, more, rfl⟩ := List.exists_cons_of_ne_nil hne
      have hjoin : (s :: more).intercalate (x :: y :: parts) =
          x ++ (s :: (more ++ (s :: more).intercalate (y :: parts))) := by
        rw [List.intercalate_cons_cons, List.append_assoc]
        rfl
      have hrest := ih (by simp) fun z hz => h z (List.mem_cons_of_mem x hz)
      have hmatch : (s :: more).isPrefixOf (s :: (more ++ (s :: more).intercalate (y :: parts))) =
        true := by
        rw [List.isPrefixOf_iff_prefix]
        exact ⟨_, rfl⟩
      rw [hjoin, splitTopLevel, hx, List.nil_append, splitFrom, hmatch, if_pos ⟨rfl, rfl⟩]
      show x :: splitFrom (s :: more) (more.length + 1 - 1) false 0 [] _ = _
      rw [Nat.add_sub_cancel, splitFrom_drop]
      exact congrArg (x :: ·) hrest

/-! ## Groups -/

/-- Reading a group takes `x` into it, at any depth. -/
def GroupPassed (x : Bytes) : Prop :=
  ∀ depth rest, groupBody false depth (x ++ rest) = (groupBody false depth rest).map fun r =>
    (x ++ r.1, r.2)

theorem groupPassed_nil : GroupPassed [] := by
  intro depth rest
  simp

theorem GroupPassed.append {x y : Bytes} (hx : GroupPassed x) (hy : GroupPassed y) :
    GroupPassed (x ++ y) := by
  intro depth rest
  rw [List.append_assoc, hx, hy, Option.map_map]
  simp [Function.comp_def]

theorem groupPassed_bytes :
    ∀ {x : Bytes}, (∀ c ∈ x, c ≠ 0x5C ∧ c ≠ 0x7B ∧ c ≠ 0x7D) → GroupPassed x := by
  intro x
  induction x with
  | nil => intro _; exact groupPassed_nil
  | cons c x ih =>
    intro h
    obtain ⟨h1, h2, h3⟩ := h c List.mem_cons_self
    have hbyte : GroupPassed [c] := by
      intro depth rest
      rw [List.singleton_append, groupBody]
      simp [h1, h2, h3]
    exact hbyte.append (ih fun b hb => h b (List.mem_cons_of_mem c hb))

theorem groupPassed_backslash (c : UInt8) : GroupPassed [0x5C, c] := by
  intro depth rest
  show groupBody false depth (0x5C :: c :: rest) = _
  rw [groupBody, if_pos (by decide), groupBody, Option.map_map]
  rfl

theorem GroupPassed.braced {x : Bytes} (hx : GroupPassed x) : GroupPassed (braced x) := by
  intro depth rest
  have hclose : groupBody false (depth + 1) (0x7D :: rest) =
      (groupBody false depth rest).map fun r => (0x7D :: r.1, r.2) := by
    rw [groupBody, if_neg (by decide), if_neg (by decide), if_pos (by decide), if_neg (by omega),
      Nat.add_sub_cancel]
  show groupBody false depth (0x7B :: (x ++ [0x7D] ++ rest)) = _
  rw [groupBody, if_neg (by decide), if_pos (by decide), List.append_assoc, hx,
    List.singleton_append, hclose, Option.map_map, Option.map_map]
  simp [Function.comp_def, Latex.braced]

theorem readGroup_braced {x : Bytes} (hx : GroupPassed x) (rest : Bytes) :
    readGroup (braced x ++ rest) = some (x, rest) := by
  have hclose : groupBody false 0 (0x7D :: rest) = some ([], rest) := rfl
  show groupBody false 0 (x ++ [0x7D] ++ rest) = _
  rw [List.append_assoc, hx, List.singleton_append, hclose]
  simp

/-! ## Entries -/

/-- What a rendered entry is made of, apart from its commands. -/
def isOrdinary (c : UInt8) : Bool := isAlpha c || isDigit c || c == 0x20 || c == 0x2A

theorem isOrdinary_ne {c : UInt8} (h : isOrdinary c = true) :
    c ≠ 0x5C ∧ c ≠ 0x7B ∧ c ≠ 0x7D ∧ c ≠ 0x26 ∧ c ≠ 0x3C ∧ c ≠ 0x3E := by
  have hall : ∀ n : Fin 256, isOrdinary (UInt8.ofFin n) = true → UInt8.ofFin n ≠ 0x5C ∧
    UInt8.ofFin n ≠ 0x7B ∧
      UInt8.ofFin n ≠ 0x7D ∧ UInt8.ofFin n ≠ 0x26 ∧ UInt8.ofFin n ≠ 0x3C ∧
        UInt8.ofFin n ≠ 0x3E := by
    decide +kernel
  exact hall c.toFin h

theorem PlainText.ordinary (p : PlainText) : ∀ c ∈ p.text, isOrdinary c = true := by
  intro c hc
  rw [isOrdinary, p.plain c hc, Bool.true_or]

theorem ordinary_decimal (n : Nat) : ∀ c ∈ decimal n, isOrdinary c = true := by
  intro c hc
  simp [isOrdinary, decimal_digits n c hc]

/-- Entries as texts and commands around them; the commands' names start
with an 'm'. -/
inductive Entry : Bytes → Prop
  | text {x : Bytes} (h : ∀ c ∈ x, isOrdinary c = true) : Entry x
  | command {name a b x : Bytes} (hname : ∀ c ∈ name, isAlpha c = true)
      (ha : ∀ c ∈ a, isOrdinary c = true) (hb : ∀ c ∈ b, isOrdinary c = true) (hx : Entry x) :
      Entry (command (0x6D :: name) a b x)

theorem entry_renderInner (r : Rect PlainText) : Entry (renderInner r) := by
  unfold renderInner
  split
  · exact .command (List.all_eq_true.1 (by decide)) (ordinary_decimal _)
      (List.all_eq_true.1 (by decide)) (.text r.value.ordinary)
  · exact .text r.value.ordinary

theorem entry_renderEntry (r : Rect PlainText) : Entry (renderEntry r) := by
  unfold renderEntry
  split
  · exact .command (List.all_eq_true.1 (by decide)) (ordinary_decimal _)
      (List.all_eq_true.1 (by decide)) (entry_renderInner r)
  · exact entry_renderInner r

theorem isAlpha_ordinary {c : UInt8} (h : isAlpha c = true) : isOrdinary c = true :=
  by simp [isOrdinary, h]

theorem command_eq (name a b x : Bytes) :
    command (0x6D :: name) a b x =
      [0x5C, 0x6D] ++ (name ++ (braced a ++ (braced b ++ braced x))) := by
  simp [command]

theorem Entry.groupPassed {x : Bytes} (h : Entry x) : GroupPassed x := by
  have hbytes : ∀ {y : Bytes}, (∀ c ∈ y, isOrdinary c = true) → GroupPassed y := fun hy =>
    groupPassed_bytes fun c hc => ⟨(isOrdinary_ne (hy c hc)).1, (isOrdinary_ne (hy c hc)).2.1,
      (isOrdinary_ne (hy c hc)).2.2.1⟩
  induction h with
  | text h => exact hbytes h
  | command hname ha hb _ ih =>
    rw [command_eq]
    have hrest := hbytes fun c hc => isAlpha_ordinary (hname c hc)
    exact (groupPassed_backslash _).append
      (hrest.append ((hbytes ha).braced.append ((hbytes hb).braced.append ih.braced)))

/-- The separators of rows and of columns. -/
theorem Entry.passed {x separator : Bytes} (h : Entry x)
    (hsep : separator = ascii "\\\\" ∨ separator = ascii "&") :
    Passed separator x := by
  have hne : separator ≠ [] := by rcases hsep with rfl | rfl <;> decide
  have hopen : separator.head? ≠ some 0x7B := by rcases hsep with rfl | rfl <;> decide
  have hbytes : ∀ {y : Bytes}, (∀ c ∈ y, isOrdinary c = true) → Passed separator y := by
    intro y hy
    refine passed_bytes hne fun c hc => ?_
    obtain ⟨h1, h2, h3, h4, -⟩ := isOrdinary_ne (hy c hc)
    refine ⟨h1, h2, h3, ?_⟩
    rcases hsep with rfl | rfl
    · exact fun he => h1 (Option.some.inj he).symm
    · exact fun he => h4 (Option.some.inj he).symm
  induction h with
  | text h => exact hbytes h
  | command hname ha hb _ ih =>
    rw [command_eq]
    have hstart : Passed separator [0x5C, 0x6D] := by
      refine passed_backslash fun rest => ?_
      rcases hsep with rfl | rfl
      · rfl
      · rfl
    have hrest := hbytes fun c hc => isAlpha_ordinary (hname c hc)
    exact hstart.append (hrest.append (((hbytes ha).braced hopen hne).append
      (((hbytes hb).braced hopen hne).append (ih.braced hopen hne))))

/-! ## Unwrapping -/

theorem readGroups_braced {a b x : Bytes} (ha : GroupPassed a) (hb : GroupPassed b)
    (hx : GroupPassed x) :
    readGroups 3 (braced a ++ (braced b ++ braced x)) = some ([a, b, x], []) := by
  have hlast := readGroup_braced hx []
  rw [List.append_nil] at hlast
  simp [readGroups, readGroup_braced ha, readGroup_braced hb, hlast]

theorem trim_command (name a b x : Bytes) : trim (command name a b x) = command name a b x :=
  trim_eq rfl (z := 0x5C :: (name ++ (braced a ++ (braced b ++ (0x7B :: x))))) (d := 0x7D)
    (by simp [command, braced]) (by decide) (by decide)

/-- A command gives its arguments back. -/
theorem unwrapCommand_command {name a b x : Bytes} (ha : GroupPassed a) (hb : GroupPassed b)
    (hx : GroupPassed x) :
    unwrapCommand (command name a b x) name 3 = some [a, b, x] := by
  have hstart : (0x5C :: name).isPrefixOf (command name a b x) = true := by
    rw [List.isPrefixOf_iff_prefix]
    exact ⟨_, rfl⟩
  have hbehind : (command name a b x).drop (0x5C :: name).length =
    braced a ++ (braced b ++ braced x) := by
    show (0x5C :: name ++ (braced a ++ (braced b ++ braced x))).drop (0x5C :: name).length = _
    rw [List.drop_left]
  have hhead : (braced a ++ (braced b ++ braced x)).head?.any isAlpha = false := rfl
  unfold unwrapCommand
  simp only [trim_command, hstart, hbehind, hhead, readGroups_braced ha hb hx]
  rfl

/-- A text that does not start with a backslash is no command. -/
theorem unwrapCommand_none {text name : Bytes} {n : Nat} (h : (trim text).head? ≠ some 0x5C) :
    unwrapCommand text name n = none := by
  have hno : (0x5C :: name).isPrefixOf (trim text) = false := by
    cases htrim : trim text with
    | nil => rfl
    | cons c rest =>
      have hc : (0x5C : UInt8) ≠ c := fun he => h (by rw [htrim, ← he]; rfl)
      simp [List.isPrefixOf, hc]
  unfold unwrapCommand
  simp [hno]

theorem unwrapCell_text (n : Nat) (cell : LatexCell) (p : PlainText) :
    unwrapCell n cell p.text = (cell, p.text) := by
  have hhead : (trim p.text).head? ≠ some 0x5C := by
    rw [p.trimmed]
    intro he
    exact (isOrdinary_ne (p.ordinary 0x5C (List.mem_of_mem_head? he))).1 rfl
  cases n with
  | zero => rfl
  | succ n =>
    rw [unwrapCell, unwrapCommand_none hhead, unwrapCommand_none hhead, unwrapCommand_none hhead]

/-- A span as it is written. -/
theorem length_decimalAux :
    ∀ (fuel n k : Nat), n < 10 ^ (k + 1) → (decimalAux fuel n).length ≤ k + 1 := by
  intro fuel
  induction fuel with
  | zero => intro n k _; exact Nat.zero_le _
  | succ fuel ih =>
    intro n k h
    rw [decimalAux]
    split
    · exact Nat.succ_le_succ (Nat.zero_le k)
    · rename_i hge
      cases k with
      | zero => omega
      | succ k =>
        have := ih (n / 10) k (by rw [Nat.div_lt_iff_lt_mul (by decide), ← Nat.pow_succ]; exact h)
        rw [List.length_append, List.length_singleton]
        omega

theorem spanValue_decimal {n : Nat} (h1 : 1 ≤ n) (h2 : n ≤ kMaxLatexColumns + 1) :
    spanValue (decimal n) = n := by
  have hdigits := decimal_digits n
  have htrim : trim (decimal n) = decimal n := by
    obtain ⟨c, y, hc⟩ := List.exists_cons_of_ne_nil (decimal_ne_nil n)
    have hlast := (List.dropLast_append_getLast (decimal_ne_nil n)).symm
    have hblank : ∀ b, isDigit b = true → isBlank b = false := by
      intro b hb
      have hall : ∀ k : Fin 256, isDigit (UInt8.ofFin k) = true →
        isBlank (UInt8.ofFin k) = false := by
        decide +kernel
      exact hall b.toFin hb
    exact trim_eq hc hlast (hblank c (hdigits c (by rw [hc]; exact List.mem_cons_self)))
      (hblank _ (hdigits _ (List.getLast_mem _)))
  have hzeros : ∀ l : Bytes, ofDigits (l.dropWhile (· == 0x30)) = ofDigits l := by
    intro l
    induction l with
    | nil => rfl
    | cons c l ih =>
      rw [List.dropWhile_cons]
      split
      · rename_i hc
        rw [ih, beq_iff_eq.1 hc]
        rfl
      · rfl
  have hvalue : ofDigits ((decimal n).dropWhile (· == 0x30)) = n := by rw [hzeros, ofDigits_decimal]
  have hlen : ((decimal n).dropWhile (· == 0x30)).length ≤ 4 := by
    refine ((List.dropWhile_suffix _).length_le).trans (length_decimalAux _ n 3 ?_)
    unfold kMaxLatexColumns at h2
    omega
  have hall : ((decimal n).dropWhile (· == 0x30)).all isDigit = true :=
    List.all_eq_true.2 fun b hb => hdigits b ((List.dropWhile_suffix _).subset hb)
  have hne : ((decimal n).dropWhile (· == 0x30)).isEmpty = false := by
    rw [List.isEmpty_eq_false_iff]
    intro he
    rw [he] at hvalue
    have : (0 : Nat) = n := hvalue
    omega
  unfold spanValue
  simp only [htrim, hne, hall, hvalue]
  rw [if_neg (by simp), if_neg (by omega), Nat.min_eq_left h2]

/-- The cell of a rectangle. -/
def entryCell (r : Rect PlainText) : LatexCell :=
  { text := r.value.text, rowSpan := r.height, colSpan := r.width }

theorem escapeFrom_ordinary :
    ∀ {l : Bytes}, (∀ c ∈ l, isOrdinary c = true) → escapeFrom 0 l = l := by
  intro l
  induction l with
  | nil => intro _; rfl
  | cons c l ih =>
    intro h
    obtain ⟨h1, -, -, h4, h5, h6⟩ := isOrdinary_ne (h c List.mem_cons_self)
    have hmarkup : cellMarkup (c :: l) = none := by simp [cellMarkup, h1, h5]
    have hbyte : escapeHtmlByte c = [c] := by simp [escapeHtmlByte, h4, h5, h6]
    rw [escapeFrom, hmarkup]
    show escapeHtmlByte c ++ escapeFrom 0 l = _
    rw [hbyte, ih fun b hb => h b (List.mem_cons_of_mem c hb)]
    rfl

section Rect
variable {r : Rect PlainText} (hrow : 1 ≤ r.height) (hrow' : r.height ≤ kMaxLatexColumns + 1)
    (hcol : 1 ≤ r.width)
  (hcol' : r.width ≤ kMaxLatexColumns + 1)

include hrow hrow' in
/-- The row command of an entry. -/
theorem unwrapCell_inner {n : Nat} (hn : (renderInner r).length ≤ n) {cell : LatexCell}
    (hcell : cell.rowSpan = 1) :
    unwrapCell n cell (renderInner r) = ({ cell with rowSpan := r.height }, r.value.text) := by
  unfold renderInner at hn ⊢
  split at hn
  · rename_i hheight
    rw [if_pos hheight]
    have hargs :
      unwrapCommand (command (ascii "multirow") (decimal r.height) (ascii "*") r.value.text)
        (ascii "multirow") 3 = some [decimal r.height, ascii "*", r.value.text] :=
      unwrapCommand_command (Entry.text (ordinary_decimal _)).groupPassed
        (Entry.text (List.all_eq_true.1 (by decide))).groupPassed
          (Entry.text r.value.ordinary).groupPassed
    have hother :
      unwrapCommand (command (ascii "multirow") (decimal r.height) (ascii "*") r.value.text)
        (ascii "multicolumn") 3 = none := by
      have hno : (0x5C :: ascii "multicolumn").isPrefixOf
        (command (ascii "multirow") (decimal r.height) (ascii "*") r.value.text) = false := rfl
      unfold unwrapCommand
      simp [trim_command, hno]
    cases n with
    | zero => simp [command] at hn
    | succ n =>
      rw [unwrapCell, hother, hargs]
      show unwrapCell n { cell with rowSpan := spanValue (decimal r.height) } r.value.text = _
      rw [spanValue_decimal hrow hrow', unwrapCell_text]
  · rename_i hheight
    have hone : r.height = 1 := by omega
    rw [if_neg hheight, unwrapCell_text, hone, ← hcell]

include hrow hrow' hcol hcol' in
/-- **An entry is unwrapped to its rectangle.** -/
theorem parseLatexCell_renderEntry : parseLatexCell (renderEntry r) = entryCell r := by
  have hunwrap : unwrapCell (renderEntry r).length {} (renderEntry r) =
      ({ rowSpan := r.height, colSpan := r.width }, r.value.text) := by
    unfold renderEntry
    split
    · have hargs :
        unwrapCommand (command (ascii "multicolumn") (decimal r.width) (ascii "c") (renderInner r))
          (ascii "multicolumn") 3 = some [decimal r.width, ascii "c", renderInner r] :=
        unwrapCommand_command (Entry.text (ordinary_decimal _)).groupPassed
          (Entry.text (List.all_eq_true.1 (by decide))).groupPassed
            (entry_renderInner r).groupPassed
      obtain ⟨n, hn, hle⟩ : ∃ n,
        (command (ascii "multicolumn") (decimal r.width) (ascii "c") (renderInner r)).length =
          n + 1 ∧ (renderInner r).length ≤ n := by
        refine ⟨_, rfl, ?_⟩
        simp only [braced, List.length_append, List.length_cons]
        omega
      rw [hn, unwrapCell, hargs]
      show unwrapCell n { colSpan := spanValue (decimal r.width) } (renderInner r) = _
      rw [spanValue_decimal hcol hcol', unwrapCell_inner hrow hrow' hle rfl]
    · have hone : r.width = 1 := by omega
      rw [unwrapCell_inner hrow hrow' (Nat.le_refl _) rfl, hone]
  rw [parseLatexCell, hunwrap]
  show { ({ rowSpan := r.height, colSpan := r.width } : LatexCell) with
    text := trim (escapeFrom 0 r.value.text) } = _
  rw [escapeFrom_ordinary r.value.ordinary, r.value.trimmed]
  rfl

end Rect

/-! ## Rows -/

section Rows
variable {t : Tiling PlainText} {i : Nat}

theorem entry_rowEntries : ∀ x ∈ rowEntries t i, Entry x := by
  intro x hx
  obtain ⟨j, -, hx⟩ := List.mem_flatMap.1 hx
  unfold entriesAt at hx
  split at hx
  · split at hx
    · rw [List.mem_singleton.1 hx]
      exact entry_renderEntry _
    · cases hx
  · rw [List.mem_singleton.1 hx]
    exact .text (by simp)

/-- What holds of the parts and of what joins them holds of the whole. -/
theorem intercalate_closed {P : Bytes → Prop} (hnil : P [])
    (happend : ∀ {x y}, P x → P y → P (x ++ y)) {glue : Bytes}
    (hglue : P glue) : ∀ {parts : List Bytes}, (∀ x ∈ parts, P x) → P (glue.intercalate parts) := by
  intro parts
  induction parts with
  | nil => intro _; exact hnil
  | cons x parts ih =>
    intro h
    have hx := h x List.mem_cons_self
    cases parts with
    | nil =>
      rw [List.intercalate_singleton]
      exact hx
    | cons y parts =>
      rw [List.intercalate_cons_cons]
      exact happend (happend hx hglue) (ih fun z hz => h z (List.mem_cons_of_mem x hz))

theorem passed_renderLatexRow : Passed (ascii "\\\\") (renderLatexRow t i) := by
  have hglue : Passed (ascii "\\\\") (ascii "&") :=
    passed_byte (by decide) (by decide) (by decide) (by decide) (by decide)
  exact intercalate_closed (passed_nil _) Passed.append hglue fun x hx =>
    (entry_rowEntries x hx).passed (.inl rfl)

theorem rowEntries_cons (hcols : 2 ≤ t.cols) :
    ∃ more, rowEntries t i = entriesAt t i 0 ++ (entriesAt t i 1 ++ more) := by
  obtain ⟨n, hn⟩ : ∃ n, t.cols = n + 2 := ⟨t.cols - 2, by omega⟩
  refine ⟨((List.range n).map (· + 2)).flatMap (entriesAt t i), ?_⟩
  unfold rowEntries
  rw [hn, List.range_succ_eq_map, List.range_succ_eq_map]
  simp [List.flatMap_map]

/-- A row starts with a plain entry that ends at a '&', or with a command. -/
theorem row_start (hi : i < t.rows) (hcols : 2 ≤ t.cols) :
    ∃ a d more, renderLatexRow t i = a ++ d :: more ∧ (∀ c ∈ a, isOrdinary c = true) ∧
      (d = 0x26 ∨ d = 0x5C) := by
  obtain ⟨more, hrow⟩ := @rowEntries_cons t i hcols
  obtain ⟨h1, h2, h3, h4⟩ := t.contains hi (show 0 < t.cols by omega)
  obtain ⟨k1, k2, k3, k4⟩ := t.contains hi (show 1 < t.cols by omega)
  obtain ⟨x, hx⟩ : ∃ x, entriesAt t i 0 = [x] := by
    unfold entriesAt
    split
    · rw [if_pos (show (t.cover i 0).col = 0 by omega)]
      exact ⟨_, rfl⟩
    · exact ⟨[], rfl⟩
  have hcommand : ∀ {name a b y : Bytes} {xs : List Bytes}, ∃ more,
      (ascii "&").intercalate (command name a b y :: xs) = 0x5C :: more := by
    intro name a b y xs
    cases xs with
    | nil => exact ⟨_, List.intercalate_singleton⟩
    | cons z xs => exact ⟨_, List.intercalate_cons_cons⟩
  have hentry : Entry x :=
    entry_rowEntries x (by rw [hrow, hx]; exact List.mem_append_left _ List.mem_cons_self)
  unfold renderLatexRow
  rw [hrow, hx, List.singleton_append]
  cases hone : entriesAt t i 1 ++ more with
  | nil =>
    -- the first entry spans the second column
    have hnone := (List.append_eq_nil_iff.1 hone).1
    unfold entriesAt at hnone
    split at hnone
    · rename_i hrow1
      split at hnone
      · cases hnone
      · have hsame : t.cover i 0 = t.cover i 1 :=
          t.same hi (show 1 < t.cols by omega) ⟨k1, k2, by omega, by omega⟩
        have hwide : (t.cover i 0).width > 1 := by rw [hsame]; omega
        have hfirst : x = renderEntry (t.cover i 0) := by
          unfold entriesAt at hx
          rw [if_pos (by rw [hsame]; exact hrow1), if_pos (by omega)] at hx
          exact (List.cons.inj hx).1.symm
        rw [hfirst, renderEntry, if_pos hwide]
        obtain ⟨more, hmore⟩ :=
          @hcommand (ascii "multicolumn") (decimal (t.cover i 0).width) (ascii "c")
          (renderInner (t.cover i 0)) []
        exact ⟨[], 0x5C, more, hmore, by simp, .inr rfl⟩
    · cases hnone
  | cons y ys =>
    cases hentry with
    | text h =>
      refine ⟨x, 0x26, (ascii "&").intercalate (y :: ys), ?_, h, .inl rfl⟩
      rw [List.intercalate_cons_cons, List.append_assoc]
      rfl
    | command _ _ _ _ =>
      obtain ⟨more, hmore⟩ := @hcommand _ _ _ _ (y :: ys)
      exact ⟨[], 0x5C, more, hmore, by simp, .inr rfl⟩

/-- No row is blank. -/
theorem trim_renderLatexRow (hi : i < t.rows) (hcols : 2 ≤ t.cols) :
    (trim (renderLatexRow t i)).isEmpty = false := by
  obtain ⟨a, d, more, hrow, -, hd⟩ := row_start hi hcols
  rw [List.isEmpty_eq_false_iff]
  intro hempty
  have hvisible := visible_trim (renderLatexRow t i)
  rw [hempty, hrow] at hvisible
  have hmem : d ∈ visible (a ++ d :: more) := by
    refine List.mem_filter.2 ⟨by simp, ?_⟩
    rcases hd with rfl | rfl <;> rfl
  rw [← hvisible] at hmem
  cases hmem

/-! ## The environment -/

/-- A word in front of a brace does not start a text whose first brace comes
behind another byte. -/
theorem not_word_brace {w tail : Bytes} {b d : UInt8} (hbd : b ≠ d) :
    ∀ {a rest : Bytes}, b ∉ a → d ∉ w →
    ¬ w ++ b :: tail <+: a ++ d :: rest := by
  induction w with
  | nil =>
    intro a rest hb _ hpre
    cases a with
    | nil => exact hbd (List.cons_prefix_cons.1 hpre).1
    | cons x a => exact hb (by rw [(List.cons_prefix_cons.1 hpre).1]; exact List.mem_cons_self)
  | cons y w ih =>
    intro a rest hb hd hpre
    rw [List.mem_cons, not_or] at hd
    cases a with
    | nil => exact hd.1 (List.cons_prefix_cons.1 hpre).1.symm
    | cons x a =>
      rw [List.mem_cons, not_or] at hb
      exact ih hb.2 hd.2 (List.cons_prefix_cons.1 hpre).2

/-- The begin or the end of an environment: a letter other than 'm' behind the
backslash, and a word in front of the brace. -/
structure Marker (needle : Bytes) : Prop where
  shape : ∃ (n : UInt8) (w tail : Bytes), needle = 0x5C :: n :: (w ++ 0x7B :: tail) ∧ n ≠ 0x6D ∧
    ∀ c ∈ n :: w, c ≠ 0x5C ∧ c ≠ 0x26

theorem marker_begin : Marker (ascii "\\begin\x7btabular\x7d") :=
  ⟨0x62, ascii "egin", ascii "tabular\x7d", rfl, by decide, by simp [ascii]⟩

theorem marker_end : Marker (ascii "\\end\x7btabular\x7d") :=
  ⟨0x65, ascii "nd", ascii "tabular\x7d", rfl, by decide, by simp [ascii]⟩

end Rows

section Marker
variable {needle : Bytes} (hneedle : Marker needle)
include hneedle

theorem Marker.head : needle.head? = some 0x5C := by
  obtain ⟨n, w, tail, rfl, -⟩ := hneedle.shape
  rfl

theorem Marker.skips_entry {x : Bytes} (h : Entry x) : Skips needle x := by
  have hbytes : ∀ {y : Bytes}, (∀ c ∈ y, isOrdinary c = true) → Skips needle y := fun hy =>
    skips_of_notMem hneedle.head fun hm => (isOrdinary_ne (hy _ hm)).1 rfl
  have hbrace : ∀ {y : Bytes}, Skips needle y → Skips needle (braced y) := by
    intro y hy
    have hopen : Skips needle [0x7B] := skips_of_notMem hneedle.head (by decide)
    have hclose : Skips needle [0x7D] := skips_of_notMem hneedle.head (by decide)
    exact hopen.append (hy.append hclose)
  induction h with
  | text h => exact hbytes h
  | @command name a b x hname ha hb _ ih =>
    rw [command_eq]
    have hletter : Skips needle [0x6D] := skips_of_notMem hneedle.head (by decide)
    have hstart : Skips needle [0x5C, 0x6D] := by
      refine Skips.cons (fun rest hpre => ?_) hletter
      obtain ⟨n, w, tail, rfl, hm, -⟩ := hneedle.shape
      exact hm (List.cons_prefix_cons.1 (List.cons_prefix_cons.1 hpre).2).1
    have hrest := hbytes fun c hc => isAlpha_ordinary (hname c hc)
    exact hstart.append
      (hrest.append ((hbrace (hbytes ha)).append ((hbrace (hbytes hb)).append (hbrace ih))))

theorem Marker.skips_nil : Skips needle [] := skips_of_notMem hneedle.head (by simp)

variable {t : Tiling PlainText} (hcols : 2 ≤ t.cols)

theorem Marker.skips_row (i : Nat) : Skips needle (renderLatexRow t i) := by
  have hglue : Skips needle (ascii "&") := skips_of_notMem hneedle.head (by decide)
  exact intercalate_closed hneedle.skips_nil Skips.append hglue fun x hx =>
    hneedle.skips_entry (entry_rowEntries x hx)

include hcols

/-- The second backslash of a row separator starts no marker either. -/
theorem Marker.skips_separator {i : Nat} (hi : i < t.rows) :
    Skips needle (ascii "\\\\" ++ renderLatexRow t i) := by
  obtain ⟨n, w, tail, hshape, hm, hw⟩ := hneedle.shape
  show Skips needle (0x5C :: 0x5C :: renderLatexRow t i)
  refine Skips.cons (fun rest hpre => ?_) (Skips.cons (fun rest hpre => ?_) (hneedle.skips_row i))
  · rw [hshape] at hpre
    exact (hw n List.mem_cons_self).1 (List.cons_prefix_cons.1 (List.cons_prefix_cons.1 hpre).2).1
  · obtain ⟨a, d, more, hrow, ha, hd⟩ := row_start hi hcols
    rw [hshape, hrow, List.append_assoc, List.cons_append] at hpre
    have hbrace : (0x7B : UInt8) ∉ a := fun hb => (isOrdinary_ne (ha _ hb)).2.1 rfl
    have hword : d ∉ n :: w := by
      intro hm
      rcases hd with rfl | rfl
      · exact (hw _ hm).2 rfl
      · exact (hw _ hm).1 rfl
    have hne : (0x7B : UInt8) ≠ d := by rcases hd with rfl | rfl <;> decide
    exact not_word_brace hne hbrace hword (List.cons_prefix_cons.1 hpre).2

theorem Marker.skips_separated : ∀ {rows : List Nat}, (∀ i ∈ rows, i < t.rows) →
    Skips needle (rows.flatMap fun i => ascii "\\\\" ++ renderLatexRow t i) := by
  intro rows
  induction rows with
  | nil => intro _; exact hneedle.skips_nil
  | cons i rows ih =>
    intro h
    rw [List.flatMap_cons]
    exact (hneedle.skips_separator hcols (h i List.mem_cons_self)).append
      (ih fun k hk => h k (List.mem_cons_of_mem i hk))

/-- No marker starts in the rows. -/
theorem Marker.skips_rows : Skips needle (renderLatexRows t) := by
  have hjoin : ∀ (rows : List Nat) (i : Nat),
    (ascii "\\\\").intercalate ((i :: rows).map (renderLatexRow t)) =
      renderLatexRow t i ++ rows.flatMap fun k => ascii "\\\\" ++ renderLatexRow t k := by
    intro rows
    induction rows with
    | nil => intro i; simp
    | cons k rows ih =>
      intro i
      rw [List.map_cons, List.map_cons, List.intercalate_cons_cons, ← List.map_cons, ih,
        List.flatMap_cons]
      simp
  obtain ⟨n, hn⟩ : ∃ n, t.rows = n + 1 := ⟨t.rows - 1, by have := t.rows_pos; omega⟩
  unfold renderLatexRows
  rw [hn, List.range_succ_eq_map, hjoin]
  refine (hneedle.skips_row 0).append (hneedle.skips_separated hcols fun i hi => ?_)
  obtain ⟨k, hk, rfl⟩ := List.mem_map.1 hi
  rw [List.mem_range] at hk
  omega

end Marker

section Body
variable {t : Tiling PlainText} (hcols : 2 ≤ t.cols)
include hcols

/-- The rows stand inside the environment. -/
theorem tabularBody_renderLatex (spec : Option ColumnSpec) :
    tabularBody (renderLatex spec t) = renderLatexRows t := by
  have hbegin := marker_begin.skips_rows hcols
  have hend := marker_end.skips_rows hcols
  cases spec with
  | none =>
    show tabularBody (renderLatexRows t) = _
    unfold tabularBody
    rw [findSub_none hbegin]
    simp only [findSub_none hend]
  | some spec =>
    have hstart : findSub (ascii "\\begin\x7btabular\x7d") (renderLatex (some spec) t) =
        some ([], renderLatex (some spec) t) :=
      findSub_skips (l := []) (List.isPrefixOf_iff_prefix.2 ⟨_, rfl⟩) (by simp [ascii])
        marker_begin.skips_nil
    have hgroup :
      readGroup (braced spec.text ++ (renderLatexRows t ++ ascii "\\end\x7btabular\x7d")) =
        some (spec.text, renderLatexRows t ++ ascii "\\end\x7btabular\x7d") :=
      readGroup_braced (groupPassed_bytes spec.plain) _
    have hbehind : (renderLatex (some spec) t).drop (ascii "\\begin\x7btabular\x7d").length =
        braced spec.text ++ (renderLatexRows t ++ ascii "\\end\x7btabular\x7d") := by
      unfold renderLatex
      rw [List.drop_left]
    have hstop :
      findSub (ascii "\\end\x7btabular\x7d") (renderLatexRows t ++ ascii "\\end\x7btabular\x7d") =
        some (renderLatexRows t, ascii "\\end\x7btabular\x7d") :=
      findSub_skips (by decide) (by decide) hend
    unfold tabularBody
    rw [hstart]
    simp only [hbehind, hgroup, hstop]

/-- The cells at a position. -/
def cellsAt (t : Tiling PlainText) (i j : Nat) : List LatexCell :=
  if (t.cover i j).row = i then if (t.cover i j).col = j then [entryCell (t.cover i j)] else []
  else [{}]

/-- **The rows of entries of a rendered tiling.** -/
theorem tabularRows_renderLatex (spec : Option ColumnSpec) (hrows : t.rows ≤ kMaxLatexColumns)
    (hwide : t.cols ≤ kMaxLatexColumns) : tabularRows (renderLatex spec t) =
      (List.range t.rows).map fun i => (List.range t.cols).flatMap (cellsAt t i) := by
  have hsplit : splitTopLevel (renderLatexRows t) (ascii "\\\\") =
    (List.range t.rows).map (renderLatexRow t) := by
    refine split_intercalate (by decide) ?_ fun x hx => ?_
    · have := t.rows_pos
      simp only [ne_eq, List.map_eq_nil_iff, List.range_eq_nil]
      omega
    · obtain ⟨i, -, rfl⟩ := List.mem_map.1 hx
      exact passed_renderLatexRow
  have hkeep :
    ((List.range t.rows).map (renderLatexRow t)).filter (fun row => !(trim row).isEmpty) =
      (List.range t.rows).map (renderLatexRow t) := by
    rw [List.filter_eq_self]
    intro x hx
    obtain ⟨i, hi, rfl⟩ := List.mem_map.1 hx
    rw [trim_renderLatexRow (List.mem_range.1 hi) hcols]
    rfl
  rw [tabularRows, tabularBody_renderLatex hcols, hsplit, hkeep, List.map_map]
  refine List.map_congr_left fun i hi => ?_
  rw [List.mem_range] at hi
  have hentries : splitTopLevel (renderLatexRow t i) (ascii "&") = rowEntries t i := by
    refine split_intercalate (by decide) ?_ fun x hx => (entry_rowEntries x hx).passed (.inr rfl)
    obtain ⟨a, d, more, hrow, -⟩ := row_start hi hcols
    intro hnone
    rw [renderLatexRow, hnone] at hrow
    simp at hrow
  show (splitTopLevel (renderLatexRow t i) (ascii "&")).map parseLatexCell = _
  rw [hentries, rowEntries, List.map_flatMap]
  refine List.flatMap_congr fun j hj => ?_
  rw [List.mem_range] at hj
  unfold entriesAt cellsAt
  split
  · split
    · obtain ⟨c1, c2, c3, c4⟩ := t.contains hi hj
      have hin := t.inside hi hj
      rw [List.map_singleton,
        parseLatexCell_renderEntry (by omega) (by omega) (by omega) (by omega)]
    · rfl
  · rfl

end Body

end VlmConvert.L2.Latex

import VlmConvert.L2Table.InlineText
import VlmConvert.L2Table.Latex

/-!
# Cell texts

The texts a LaTeX cell is written with: plain bytes, the signs '<', '>' and
'&' as themselves or as LaTeX escapes, and Markdown emphasis. A `CellText` knows
what each part means, so that the text read back from a rendered cell can be
compared with it.

`parse_latex_cell` escapes a cell once and its reader decodes it once; this
module is about the two and about the whitespace at the ends of a cell.
-/
namespace VlmConvert.L2.Latex

open Bytes L1

/-! ## Parts -/

/-- A literal '<', '>' or '&'; a command may end in an empty group. -/
inductive Sign
  | less | greater | ampersand
  | escapedAmpersand
  | textless (braced : Bool)
  | textgreater (braced : Bool)
  deriving DecidableEq, Repr

def emptyGroup (braced : Bool) : Bytes := if braced then ascii "\x7b\x7d" else []

def Sign.source : Sign → Bytes
  | .less => ascii "<"
  | .greater => ascii ">"
  | .ampersand => ascii "&"
  | .escapedAmpersand => ascii "\\&"
  | .textless braced => ascii "\\textless" ++ emptyGroup braced
  | .textgreater braced => ascii "\\textgreater" ++ emptyGroup braced

def Sign.char : Sign → UInt8
  | .less | .textless _ => 0x3C
  | .greater | .textgreater _ => 0x3E
  | .ampersand | .escapedAmpersand => 0x26

theorem Sign.char_eq (s : Sign) : s.char = 0x3C ∨ s.char = 0x3E ∨ s.char = 0x26 := by
  cases s <;> simp [Sign.char]

/-- A bare command ends at `behind`. -/
def endsCommand (behind : Bytes) : Bool :=
  !behind.head?.any isAlpha && !(ascii "\x7b\x7d").isPrefixOf behind

/-- A '<' starts no inline tag. -/
def Sign.written (behind : Bytes) : Sign → Bool
  | .less => (inlineTag (0x3C :: behind)).isNone
  | .textless braced | .textgreater braced => braced || endsCommand behind
  | _ => true

/-- A part of a cell's text: a byte, a sign, or a run of `run` emphasis
characters. -/
inductive CellPart
  | plain (c : UInt8)
  | sign (s : Sign)
  | mark (role : MarkRole) (c : UInt8) (run : Nat)
  deriving DecidableEq, Repr

/-- Bytes that mean nothing to LaTeX, HTML or Markdown here. -/
def isPlain (c : UInt8) : Bool := !(ascii "<>&\\*_\x60$").contains c

def isMark (c : UInt8) : Bool := c == 0x2A || c == 0x5F

def CellPart.proper : CellPart → Bool
  | .plain c => isPlain c
  | .sign _ => true
  | .mark _ c run => isMark c && run != 0

def CellPart.source : CellPart → Bytes
  | .plain c => [c]
  | .sign s => s.source
  | .mark _ c run => List.replicate run c

/-- The text with escapes resolved. -/
def CellPart.resolved : CellPart → Bytes
  | .plain c => [c]
  | .sign s => [s.char]
  | .mark _ c run => List.replicate run c

/-- The resolved text without the emphasis markers. -/
def CellPart.meaning : CellPart → Bytes
  | .plain c => [c]
  | .sign s => [s.char]
  | .mark .loose c run => List.replicate run c
  | .mark .. => []

def CellPart.written (behind : Bytes) : CellPart → Bool
  | .sign s => s.written behind
  | _ => true

def writtenParts : List CellPart → Bool
  | [] => true
  | part :: rest => part.written (rest.flatMap CellPart.source) && writtenParts rest

def CellPart.isSign : CellPart → Bool
  | .sign _ => true
  | _ => false

def CellPart.isOpener : CellPart → Bool
  | .mark .opens _ _ => true
  | _ => false

/-! ## Emphasis -/

/-- The character a part shows to a neighbour. -/
def CellPart.edge : CellPart → UInt8
  | .plain c => c
  | .sign s => s.char
  | .mark _ c _ => c

def edgeOf (parts : List CellPart) : UInt8 := (parts.head?.map CellPart.edge).getD 0x20

/-- A run between its neighbours. A loose run neither opens nor closes; a span
is closed by a run like its opener, and an opener could not close a span that
is open. The spans that are open afterwards, innermost first. -/
def CellPart.place (open_ : List (UInt8 × Nat)) (before after : UInt8) :
    CellPart → Option (List (UInt8 × Nat))
  | .mark role c run =>
    let p := delimiter c run before after
    if before == c || after == c then none
    else
      match role, open_ with
      | .loose, _ => if !p.canOpen && !p.canClose then some open_ else none
      | .opens, _ =>
          if p.canOpen && (!p.canClose || open_.isEmpty) then some ((c, run) :: open_) else none
      | .closes, [] => none
      | .closes, o :: open_ => if p.canClose && o == (c, run) then some open_ else none
  | _ => some open_

def place : List (UInt8 × Nat) → UInt8 → List CellPart → Option (List (UInt8 × Nat))
  | open_, _, [] => some open_
  | open_, before, part :: rest =>
    (part.place open_ before (edgeOf rest)).bind fun open_ => place open_ part.edge rest

def CellPart.isBlank : CellPart → Bool
  | .plain c => Bytes.isBlank c
  | _ => false

/-- No span runs over a blank line. -/
def placeLines : List (UInt8 × Nat) → List (List CellPart) → Option (List (UInt8 × Nat))
  | open_, [] => some open_
  | open_, line :: lines =>
    if line.all CellPart.isBlank then if open_.isEmpty then placeLines [] lines else none
    else (place open_ 0x20 line).bind fun open_ => placeLines open_ lines

/-- The lines with a newline between them. -/
def joinParts : List (List CellPart) → List CellPart
  | [] => []
  | [line] => line
  | line :: lines => line ++ .plain 0x0A :: joinParts lines

/-- A cell text. -/
structure CellText where
  lines : List (List CellPart)
  nonempty : lines ≠ []
  proper : ∀ line ∈ lines, ∀ part ∈ line, part.proper = true ∧ part ≠ .plain 0x0A
  written : writtenParts (joinParts lines) = true
  placed : placeLines [] lines = some []

namespace CellText

def parts (t : CellText) : List CellPart := joinParts t.lines
def source (t : CellText) : Bytes := t.parts.flatMap CellPart.source
def meaning (t : CellText) : Bytes := t.parts.flatMap CellPart.meaning
def emphasised (t : CellText) : Bool := t.parts.any CellPart.isOpener
def signed (t : CellText) : Bool := t.parts.any CellPart.isSign

end CellText

/-- The text read back from a rendered cell.
mirrors src/mapping/nemotron.cpp:372, src/mapping/layout.cpp:207 -/
def readCell (text : Bytes) : Bytes :=
  collapseWhitespace (htmlText (parseMarkup .html (markdownInlineHtml (parseLatexCell text).text)))

/-! ## Escaping -/

/-- A part as `escape_cell_markup` writes it. -/
def CellPart.escaped (part : CellPart) : Bytes := part.resolved.flatMap escapeHtmlByte

theorem isPlain_ne {c : UInt8} (h : isPlain c = true) : c ≠ 0x3C ∧ c ≠ 0x3E ∧ c ≠ 0x26 ∧ c ≠ 0x5C ∧
    c ≠ 0x2A ∧ c ≠ 0x5F ∧ c ≠ 0x60 ∧ c ≠ 0x24 := by
  simpa [isPlain, ascii, not_or] using h

theorem isMark_eq {c : UInt8} (h : isMark c = true) : c = 0x2A ∨ c = 0x5F := by
  simpa [isMark] using h

theorem escapeHtmlByte_eq {c : UInt8} (h : c ≠ 0x26 ∧ c ≠ 0x3C ∧ c ≠ 0x3E) :
    escapeHtmlByte c = [c] := by
  simp [escapeHtmlByte, h.1, h.2.1, h.2.2]

theorem escaped_plain {c : UInt8} (h : isPlain c = true) : (CellPart.plain c).escaped = [c] := by
  obtain ⟨hlt, hgt, hamp, -⟩ := isPlain_ne h
  simp [CellPart.escaped, CellPart.resolved, escapeHtmlByte_eq ⟨hamp, hlt, hgt⟩]

theorem escaped_mark {c : UInt8} (h : isMark c = true) (role : MarkRole) (run : Nat) :
    (CellPart.mark role c run).escaped = List.replicate run c := by
  have hc : escapeHtmlByte c = [c] := by rcases isMark_eq h with rfl | rfl <;> rfl
  simp [CellPart.escaped, CellPart.resolved, List.flatMap_replicate, hc]

theorem escapeFrom_skip :
    ∀ (l rest : Bytes), escapeFrom l.length (l ++ rest) = escapeFrom 0 rest := by
  intro l rest
  induction l with
  | nil => rfl
  | cons c l ih => exact ih

theorem escapeFrom_byte {c : UInt8} (h : c ≠ 0x5C ∧ c ≠ 0x3C) (rest : Bytes) :
    escapeFrom 0 (c :: rest) = escapeHtmlByte c ++ escapeFrom 0 rest := by
  have hmarkup : cellMarkup (c :: rest) = none := by simp [cellMarkup, h.1, h.2]
  rw [escapeFrom, hmarkup]

/-- A command and what it stands for; `l` is what it takes behind its
backslash. -/
theorem escapeFrom_command {l out behind : Bytes}
    (h : cellMarkup (0x5C :: (l ++ behind)) = some (out, l.length + 1)) :
    escapeFrom 0 (0x5C :: l ++ behind) = out ++ escapeFrom 0 behind := by
  rw [List.cons_append, escapeFrom, h]
  show out ++ escapeFrom l.length (l ++ behind) = _
  rw [escapeFrom_skip]

theorem textCommand_first {name out rest : Bytes} {more : List (Bytes × Bytes)}
    (h : endsCommand rest = true) :
    List.findSome? (fun command =>
      let behind := (name ++ rest).drop command.1.length
      if command.1.isPrefixOf (name ++ rest) && !behind.head?.any isAlpha then
        some (command.2,
          1 + command.1.length + if (ascii "\x7b\x7d").isPrefixOf behind then 2 else 0)
      else none) ((name, out) :: more) = some (out, 1 + name.length) := by
  simp only [endsCommand, Bool.and_eq_true, Bool.not_eq_true'] at h
  have hstart : name.isPrefixOf (name ++ rest) = true :=
    List.isPrefixOf_iff_prefix.2 (List.prefix_append _ _)
  simp only [List.findSome?_cons, List.drop_left, hstart, h.1, h.2]
  rfl

/-- Each sign is escaped to its entity. -/
theorem escapeFrom_sign (s : Sign) {behind : Bytes} (h : s.written behind = true) :
    escapeFrom 0 (s.source ++ behind) = escapeHtmlByte s.char ++ escapeFrom 0 behind := by
  cases s with
  | less =>
    have hmarkup : cellMarkup (0x3C :: behind) = none := by
      simp only [Sign.written, Option.isNone_iff_eq_none] at h
      simp [cellMarkup, h]
    show escapeFrom 0 (0x3C :: behind) = _
    rw [escapeFrom, hmarkup]
    rfl
  | greater => exact escapeFrom_byte (by decide) behind
  | ampersand => exact escapeFrom_byte (by decide) behind
  | escapedAmpersand => exact escapeFrom_command (l := [0x26]) rfl
  | textless braced =>
    cases braced with
    | true => exact escapeFrom_command (l := ascii "textless\x7b\x7d") rfl
    | false =>
      refine escapeFrom_command (l := ascii "textless") ?_
      exact textCommand_first h
  | textgreater braced =>
    cases braced with
    | true => exact escapeFrom_command (l := ascii "textgreater\x7b\x7d") rfl
    | false =>
      refine escapeFrom_command (l := ascii "textgreater") ?_
      exact textCommand_first h

theorem escapeFrom_part {part : CellPart} {behind : Bytes} (hproper : part.proper = true)
    (hwritten : part.written behind = true) :
    escapeFrom 0 (part.source ++ behind) = part.escaped ++ escapeFrom 0 behind := by
  cases part with
  | plain c =>
    obtain ⟨hlt, -, -, hback, -⟩ := isPlain_ne hproper
    show escapeFrom 0 (c :: behind) = _
    rw [escapeFrom_byte ⟨hback, hlt⟩]
    simp [CellPart.escaped, CellPart.resolved]
  | sign s =>
    show escapeFrom 0 (s.source ++ behind) = _
    rw [escapeFrom_sign s hwritten]
    simp [CellPart.escaped, CellPart.resolved]
  | mark role c run =>
    simp only [CellPart.proper, Bool.and_eq_true] at hproper
    have hc : (c ≠ 0x5C ∧ c ≠ 0x3C) ∧ escapeHtmlByte c = [c] := by
      rcases isMark_eq hproper.1 with rfl | rfl <;> decide
    have hrun : ∀ n, escapeFrom 0 (List.replicate n c ++ behind) =
      List.replicate n c ++ escapeFrom 0 behind := by
      intro n
      induction n with
      | zero => rfl
      | succ n ih =>
        rw [List.replicate_succ, List.cons_append, escapeFrom_byte hc.1, ih, hc.2]
        rfl
    rw [escaped_mark hproper.1]
    exact hrun run

theorem escapeFrom_parts : ∀ {parts : List CellPart}, (∀ part ∈ parts, part.proper = true) →
    writtenParts parts = true →
    escapeFrom 0 (parts.flatMap CellPart.source) = parts.flatMap CellPart.escaped := by
  intro parts
  induction parts with
  | nil => intro _ _; rfl
  | cons part parts ih =>
    intro hproper hwritten
    simp only [writtenParts, Bool.and_eq_true] at hwritten
    rw [List.flatMap_cons, List.flatMap_cons,
      escapeFrom_part (hproper part List.mem_cons_self) hwritten.1,
      ih (fun p hp => hproper p (List.mem_cons_of_mem part hp)) hwritten.2]

/-! ## Whitespace at the ends -/

/-- A piece of a text that is dropped whole where `q` is dropped, or not at
all. -/
def TrimsAs (q : UInt8 → Bool) (blank : Bool) (l : Bytes) : Prop :=
  (blank = true ∧ ∀ c ∈ l, q c = true) ∨
    (blank = false ∧ l.head?.any (fun c => !q c) = true ∧ l.getLast?.any (fun c => !q c) = true)

section Trim
variable {α : Type} {q : UInt8 → Bool} {blank : α → Bool} {f : α → Bytes}

theorem dropWhile_flatMap : ∀ {l : List α}, (∀ x ∈ l, TrimsAs q (blank x) (f x)) →
    (l.flatMap f).dropWhile q = (l.dropWhile blank).flatMap f := by
  intro l
  induction l with
  | nil => intro _; rfl
  | cons x l ih =>
    intro h
    have hrest := ih fun y hy => h y (List.mem_cons_of_mem x hy)
    rcases h x List.mem_cons_self with ⟨hx, hblank⟩ | ⟨hx, hfirst, -⟩
    · rw [List.flatMap_cons, List.dropWhile_append_of_pos hblank, hrest,
        List.dropWhile_cons_of_pos hx]
    · rw [List.dropWhile_cons_of_neg (by simp [hx]), List.flatMap_cons]
      cases hfx : f x with
      | nil => rw [hfx] at hfirst; cases hfirst
      | cons c m =>
        rw [hfx] at hfirst
        rw [List.cons_append, List.dropWhile_cons_of_neg (by simpa using hfirst)]

theorem rdropWhile_flatMap : ∀ {l : List α}, (∀ x ∈ l, TrimsAs q (blank x) (f x)) →
    (l.flatMap f).rdropWhile q = (l.rdropWhile blank).flatMap f := by
  intro l
  induction l using List.reverseRecOn with
  | nil => intro _; rfl
  | append_singleton l x ih =>
    intro h
    have hrest := ih fun y hy => h y (List.mem_append_left _ hy)
    rw [List.flatMap_append, List.flatMap_singleton]
    rcases h x (by simp) with ⟨hx, hblank⟩ | ⟨hx, -, hlast⟩
    · rw [List.rdropWhile_concat_pos _ _ _ hx, ← hrest, List.rdropWhile, List.reverse_append,
        List.dropWhile_append_of_pos fun c hc => hblank c (List.mem_reverse.1 hc)]
      rfl
    · rw [List.rdropWhile_concat_neg _ _ _ (by simp [hx]), List.flatMap_append,
        List.flatMap_singleton]
      obtain ⟨init, c, hfx⟩ : ∃ init c, f x = init ++ [c] := by
        rcases List.eq_nil_or_concat (f x) with hnil | ⟨init, c, hfx⟩
        · rw [hnil] at hlast
          cases hlast
        · exact ⟨init, c, by rw [hfx, List.concat_eq_append]⟩
      rw [hfx, List.getLast?_concat] at hlast
      rw [hfx, ← List.append_assoc, List.rdropWhile_concat_neg _ _ _ (by simpa using hlast)]

theorem trim_flatMap {l : List α} (h : ∀ x ∈ l, TrimsAs isBlank (blank x) (f x)) :
    trim (l.flatMap f) = ((l.dropWhile blank).rdropWhile blank).flatMap f := by
  rw [trim, dropWhile_flatMap h, rdropWhile_flatMap]
  intro x hx
  exact h x ((List.dropWhile_suffix blank).subset hx)

theorem rdropWhile_split (l : List α) (blank : α → Bool) :
    ∃ tail, l = l.rdropWhile blank ++ tail ∧ ∀ x ∈ tail, blank x = true := by
  refine ⟨(l.reverse.takeWhile blank).reverse, ?_, fun x hx => ?_⟩
  · rw [List.rdropWhile, ← List.reverse_append, List.takeWhile_append_dropWhile,
      List.reverse_reverse]
  · exact List.mem_takeWhile_imp (List.mem_reverse.1 hx)

/-- What is dropped at the ends. -/
theorem trimmed_split (l : List α) (blank : α → Bool) : ∃ lead tail,
    l = lead ++ (l.dropWhile blank).rdropWhile blank ++ tail ∧ (∀ x ∈ lead, blank x = true) ∧
      ∀ x ∈ tail, blank x = true := by
  obtain ⟨tail, htail, hblank⟩ := rdropWhile_split (l.dropWhile blank) blank
  refine ⟨l.takeWhile blank, tail, ?_, fun x hx => List.mem_takeWhile_imp hx, hblank⟩
  rw [List.append_assoc, ← htail, List.takeWhile_append_dropWhile]

end Trim

theorem collapse_trim (text : Bytes) :
    collapseWhitespace (trim text) = collapseWhitespace text := by
  obtain ⟨lead, tail, hsplit, hlead, htail⟩ := trimmed_split text isBlank
  have hend : collapseWhitespace text = collapseWhitespace (lead ++ trim text) := by
    conv_lhs => rw [hsplit]
    exact collapse_append_spaces _ fun c hc => isSpace_of_isBlank (htail c hc)
  rw [hend, collapse_spaces_append _ fun c hc => isSpace_of_isBlank (hlead c hc)]

/-- An escaped byte is trimmed as the byte itself. -/
theorem trimsAs_escapeHtmlByte (c : UInt8) : TrimsAs isBlank (isBlank c) (escapeHtmlByte c) := by
  cases hc : isBlank c with
  | true =>
    have hplain : c ≠ 0x26 ∧ c ≠ 0x3C ∧ c ≠ 0x3E := by
      refine ⟨?_, ?_, ?_⟩
      all_goals
        rintro rfl
        cases hc
    rw [escapeHtmlByte_eq hplain]
    exact Or.inl ⟨rfl, by simpa using hc⟩
  | false =>
    unfold escapeHtmlByte
    split
    · exact Or.inr ⟨rfl, by decide, by decide⟩
    split
    · exact Or.inr ⟨rfl, by decide, by decide⟩
    split
    · exact Or.inr ⟨rfl, by decide, by decide⟩
    · exact Or.inr ⟨rfl, by simp [hc], by simp [hc]⟩

theorem trim_escaped (text : Bytes) :
    trim (text.flatMap escapeHtmlByte) = (trim text).flatMap escapeHtmlByte :=
  trim_flatMap fun c _ => trimsAs_escapeHtmlByte c

/-! ## The cell -/

theorem unwrapCommand_eq_none {text name : Bytes} {n : Nat} (h : ¬(0x5C :: name) <+: trim text) :
    unwrapCommand text name n = none := by
  have hno : (0x5C :: name).isPrefixOf (trim text) = false := by
    rw [Bool.eq_false_iff]
    exact fun hstart => h (List.isPrefixOf_iff_prefix.1 hstart)
  simp [unwrapCommand, hno]

/-- The commands that stand around a cell's text. -/
def cellCommands : List Bytes := [ascii "multicolumn", ascii "multirow", ascii "thead"]

/-- No part starts one of them. -/
theorem source_not_command {part : CellPart} (hproper : part.proper = true) (rest : Bytes)
    {name : Bytes}
    (hname : name ∈ cellCommands) : ¬(0x5C :: name) <+: part.source ++ rest := by
  have hfirst : ∀ (c : UInt8) (l : Bytes), c ≠ 0x5C → ¬(0x5C :: name) <+: c :: l := by
    intro c l hc hstart
    exact hc (List.cons_prefix_cons.1 hstart).1.symm
  cases part with
  | plain c => exact hfirst c rest (isPlain_ne hproper).2.2.2.1
  | mark role c run =>
    simp only [CellPart.proper, Bool.and_eq_true, bne_iff_ne] at hproper
    obtain ⟨n, rfl⟩ : ∃ n, run = n + 1 := ⟨run - 1, by omega⟩
    exact hfirst c _ (by rcases isMark_eq hproper.1 with rfl | rfl <;> decide)
  | sign s =>
    intro hstart
    have hno : ∀ name ∈ cellCommands, (0x5C :: name).isPrefixOf (s.source ++ rest) = false := by
      intro name hname
      simp only [cellCommands, List.mem_cons, List.not_mem_nil, or_false] at hname
      rcases hname with rfl | rfl | rfl
      all_goals
        cases s with
        | textless braced => cases braced <;> rfl
        | textgreater braced => cases braced <;> rfl
        | _ => rfl
    have hyes : (0x5C :: name).isPrefixOf (s.source ++ rest) = true :=
      List.isPrefixOf_iff_prefix.2 hstart
    rw [hno name hname] at hyes
    cases hyes

theorem trimsAs_replicate {c : UInt8} (hc : isMark c = true) {n : Nat} (hn : n ≠ 0) :
    TrimsAs Bytes.isBlank false (List.replicate n c) := by
  have hblank : isBlank c = false := by rcases isMark_eq hc with rfl | rfl <;> rfl
  refine Or.inr ⟨rfl, ?_, ?_⟩
  · simp [List.head?_replicate, hn, hblank]
  · simp [List.getLast?_replicate, hn, hblank]

theorem trimsAs_source {part : CellPart} (hproper : part.proper = true) :
    TrimsAs Bytes.isBlank part.isBlank part.source := by
  cases part with
  | plain c =>
    show TrimsAs Bytes.isBlank (Bytes.isBlank c) [c]
    cases hc : Bytes.isBlank c with
    | true => exact Or.inl ⟨rfl, by simpa using hc⟩
    | false => exact Or.inr ⟨rfl, by simp [hc], by simp [hc]⟩
  | mark role c run =>
    simp only [CellPart.proper, Bool.and_eq_true, bne_iff_ne] at hproper
    exact trimsAs_replicate hproper.1 hproper.2
  | sign s =>
    refine Or.inr ⟨rfl, ?_, ?_⟩
    all_goals
      cases s with
      | textless braced => cases braced <;> decide
      | textgreater braced => cases braced <;> decide
      | _ => decide

section Unwrapped
variable {parts : List CellPart} (hproper : ∀ part ∈ parts, part.proper = true)
include hproper

theorem unwrapCommand_parts {name : Bytes} (hname : name ∈ cellCommands) (n : Nat) :
    unwrapCommand (parts.flatMap CellPart.source) name n = none := by
  refine unwrapCommand_eq_none fun hstart => ?_
  have hdrop : (0x5C :: name) <+: (parts.flatMap CellPart.source).dropWhile Bytes.isBlank :=
    hstart.trans (List.rdropWhile_prefix _ _)
  rw [dropWhile_flatMap fun part hpart => trimsAs_source (hproper part hpart)] at hdrop
  cases hparts : parts.dropWhile CellPart.isBlank with
  | nil =>
    rw [hparts] at hdrop
    simp at hdrop
  | cons part rest =>
    have hpart : part ∈ parts :=
      (List.dropWhile_suffix CellPart.isBlank).subset (by rw [hparts]; exact List.mem_cons_self)
    rw [hparts, List.flatMap_cons] at hdrop
    exact source_not_command (hproper part hpart) _ hname hdrop

theorem unwrapCell_parts (n : Nat) (cell : LatexCell) :
    unwrapCell n cell (parts.flatMap CellPart.source) = (cell, parts.flatMap CellPart.source) := by
  cases n with
  | zero => rfl
  | succ n =>
    rw [unwrapCell, unwrapCommand_parts hproper (by decide),
      unwrapCommand_parts hproper (by decide), unwrapCommand_parts hproper (by decide)]

end Unwrapped

theorem mem_joinParts {part : CellPart} : ∀ {lines : List (List CellPart)}, part ∈ joinParts lines →
    part = .plain 0x0A ∨ ∃ line ∈ lines, part ∈ line := by
  intro lines
  induction lines with
  | nil => intro h; cases h
  | cons line lines ih =>
    intro h
    cases lines with
    | nil => exact Or.inr ⟨line, List.mem_cons_self, h⟩
    | cons next lines =>
      rcases List.mem_append.1 h with h | h
      · exact Or.inr ⟨line, List.mem_cons_self, h⟩
      · rcases List.mem_cons.1 h with rfl | h
        · exact Or.inl rfl
        · rcases ih h with h | ⟨line', hline, hpart⟩
          · exact Or.inl h
          · exact Or.inr ⟨line', List.mem_cons_of_mem line hline, hpart⟩

namespace CellText

variable (t : CellText)

theorem proper_parts : ∀ part ∈ t.parts, part.proper = true := by
  intro part hpart
  rcases mem_joinParts hpart with rfl | ⟨line, hline, hmem⟩
  · decide
  · exact (t.proper line hline part hmem).1

/-- The whole text with escapes resolved. -/
def resolved : Bytes := t.parts.flatMap CellPart.resolved

/-- The cell is escaped once. -/
theorem parseLatexCell_text :
    (parseLatexCell t.source).text = (trim t.resolved).flatMap escapeHtmlByte := by
  have hescaped : t.parts.flatMap CellPart.escaped = t.resolved.flatMap escapeHtmlByte := by
    rw [resolved, List.flatMap_assoc]
    rfl
  rw [parseLatexCell, source]
  dsimp only
  rw [unwrapCell_parts t.proper_parts]
  dsimp only
  rw [escapeCellMarkup, escapeFrom_parts t.proper_parts t.written, hescaped, trim_escaped]

end CellText

/-! ## Cells without emphasis -/

theorem decodes_escapeHtmlByte : Decodes escapeHtmlByte := by
  intro c
  unfold escapeHtmlByte
  split
  · rename_i h
    exact Or.inr ⟨ascii "amp", rfl, by decide, by decide, by rw [beq_iff_eq.1 h]; decide⟩
  rename_i hamp
  split
  · rename_i h
    exact Or.inr ⟨ascii "lt", rfl, by decide, by decide, by rw [beq_iff_eq.1 h]; decide⟩
  split
  · rename_i h
    exact Or.inr ⟨ascii "gt", rfl, by decide, by decide, by rw [beq_iff_eq.1 h]; decide⟩
  · exact Or.inl ⟨rfl, fun he => hamp (beq_iff_eq.2 he)⟩

/-- Bytes that start nothing for the Markdown renderer but emphasis. -/
def isTame (c : UInt8) : Bool := c != 0x3C && c != 0x5C && c != 0x60 && c != 0x24

theorem tame_escapeHtmlByte {c : UInt8} (h : c ≠ 0x5C ∧ c ≠ 0x60 ∧ c ≠ 0x24) :
    ∀ b ∈ escapeHtmlByte c, isTame b = true := by
  unfold escapeHtmlByte
  split
  · exact List.all_eq_true.1 (by decide)
  split
  · exact List.all_eq_true.1 (by decide)
  rename_i hlt
  split
  · exact List.all_eq_true.1 (by decide)
  · simpa [isTame, h] using hlt

theorem resolved_tame {part : CellPart} (hproper : part.proper = true) :
    ∀ c ∈ part.resolved, c ≠ 0x5C ∧ c ≠ 0x60 ∧ c ≠ 0x24 := by
  intro c hc
  cases part with
  | plain d =>
    obtain ⟨-, -, -, hback, -, -, htick, hdollar⟩ := isPlain_ne hproper
    rw [List.mem_singleton.1 hc]
    exact ⟨hback, htick, hdollar⟩
  | sign s =>
    rw [List.mem_singleton.1 hc]
    rcases s.char_eq with h | h | h
    all_goals
      rw [h]
      decide
  | mark role d run =>
    simp only [CellPart.proper, Bool.and_eq_true] at hproper
    rw [(List.mem_replicate.1 hc).2]
    rcases isMark_eq hproper.1 with rfl | rfl <;> decide

theorem unescapeFrom_tame :
    ∀ (n : Nat) {l : Bytes}, (∀ c ∈ l, isTame c = true) → unescapeFrom n l = l := by
  intro n
  induction n with
  | zero => intro l _; rfl
  | succ n ih =>
    intro l h
    cases l with
    | nil => rfl
    | cons c rest =>
      have hc : c ≠ 0x60 ∧ c ≠ 0x24 ∧ c ≠ 0x5C := by
        have htame := h c List.mem_cons_self
        simp only [isTame, Bool.and_eq_true, bne_iff_ne] at htame
        exact ⟨htame.1.2, htame.2, htame.1.1.2⟩
      have hspan : copiedSpan (c :: rest) = none := by simp [copiedSpan, hc]
      rw [unescapeFrom, hspan]
      dsimp only
      rw [if_neg (by simp [hc]), ih fun b hb => h b (List.mem_cons_of_mem c hb)]

/-- A text that no renderer changes reads back as it was resolved. -/
theorem read_escaped (text : Bytes) : collapseWhitespace (htmlText (parseMarkup .html
    ((trim text).flatMap escapeHtmlByte))) = collapseWhitespace text := by
  have hlt : 0x3C ∉ (trim text).flatMap escapeHtmlByte := by
    rw [List.mem_flatMap]
    rintro ⟨c, -, hmem⟩
    unfold escapeHtmlByte at hmem
    split at hmem
    · revert hmem; decide
    split at hmem
    · revert hmem; decide
    rename_i hc
    split at hmem
    · revert hmem; decide
    · exact hc (by rw [← List.mem_singleton.1 hmem]; rfl)
  rw [parseMarkup_data hlt, decodeEntities_escaped decodes_escapeHtmlByte, collapse_trim]

end VlmConvert.L2.Latex

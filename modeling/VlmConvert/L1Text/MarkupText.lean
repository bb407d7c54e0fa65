import VlmConvert.L1Text.Markup

/-!
# The character data of a markup text

What `parseMarkup` keeps of its input. `markupPieces` cuts a text into character
data and recognised markup, byte by byte and without a tree; the parser is a
sequence of calls on its tree builder (`parseEvents`), and whatever those
calls do to the stack, the text they hand over ends up in the tree in the
order it is handed over.

Results:

* `markupPieces_source`: the pieces are the input.
* `chars_parseMarkup`: the text nodes, in order, are the decoded data.
-/
namespace VlmConvert.L1

open Bytes

/-! ## Pieces -/

/-- A piece of a text: character data; a tag, comment, doctype or processing
instruction; a CDATA section; the body of a `script` or `style` element that
is never closed. -/
inductive MarkupPiece
  | data (raw : Bytes)
  | markup (source : Bytes)
  | cdata (content tail : Bytes)
  | dropped (body : Bytes)
  deriving DecidableEq, Repr

def MarkupPiece.source : MarkupPiece → Bytes
  | .data raw => raw
  | .markup source => source
  | .cdata content tail => ascii "<![CDATA[" ++ content ++ tail
  | .dropped body => body

/-- What a piece says: data decoded, CDATA as it stands. -/
def MarkupPiece.chars : MarkupPiece → Bytes
  | .data raw => decodeEntities raw
  | .cdata content _ => content
  | _ => []

/-- Markup up to a given rest. -/
def markupUpTo (l rest : Bytes) : MarkupPiece := .markup (l.take (l.length - rest.length))

/-- The element whose body is not markup. -/
def isRawText (mode : MarkupMode) (tag : Tag) : Bool :=
  !tag.closing && mode == .html && (tag.name == ascii "script" || tag.name == ascii "style")

/-- The rest behind the closing tag that ends a raw body. -/
def behindClose (close : Bytes) : Bytes :=
  match findByte 0x3E close with
  | none => []
  | some (_, gt) => gt.drop 1

/-- The markup a text starts with, and what is behind it; `none`: the first
byte is character data. -/
def pieceAt (mode : MarkupMode) (l : Bytes) : Option (List MarkupPiece × Bytes) :=
  if l.head? != some 0x3C then none
  else if (ascii "<!--").isPrefixOf l then
    let rest := behind (ascii "-->") (l.drop 4)
    some ([markupUpTo l rest], rest)
  else if (ascii "<![CDATA[").isPrefixOf l then
    match findSub (ascii "]]>") (l.drop 9) with
    | none => some ([.cdata (l.drop 9) []], [])
    | some (content, rest) => some ([.cdata content (ascii "]]>")], rest.drop 3)
  else if (l.drop 1).head? == some 0x21 || (l.drop 1).head? == some 0x3F then
    let rest := behind [0x3E] (l.drop 2)
    some ([markupUpTo l rest], rest)
  else
    match readTag mode (l.take kMaxTagBytes) with
    | none => none
    | some (tag, left) =>
      let size := (l.take kMaxTagBytes).length - left.length
      if isRawText mode tag then
        match findFolded (ascii "</" ++ tag.name) (l.drop size) with
        | none => some ([.markup (l.take size), .dropped (l.drop size)], [])
        | some (body, close) =>
          some ([.markup (l.take size), .data body, markupUpTo close (behindClose close)],
            behindClose close)
      else some ([.markup (l.take size)], l.drop size)

def markupPiecesFrom (mode : MarkupMode) : Nat → Bytes → Bytes → List MarkupPiece
  | 0, pending, rest => [.data (pending ++ rest)]
  | _ + 1, pending, [] => [.data pending]
  | n + 1, pending, b :: rest =>
    match pieceAt mode (b :: rest) with
    | none => markupPiecesFrom mode n (pending ++ [b]) rest
    | some (ps, after) => .data pending :: (ps ++ markupPiecesFrom mode n [] after)

/-- The pieces of a text; runs of data are whole. -/
def markupPieces (mode : MarkupMode) (text : Bytes) : List MarkupPiece :=
  markupPiecesFrom mode text.length [] text

/-! ## The calls of the parser -/

/-- A call on the tree builder. -/
inductive Event
  | text (raw : Bytes)
  | openTag (tag : Tag)
  | closeTag (name : Bytes)
  deriving DecidableEq, Repr

def Event.chars : Event → Bytes
  | .text raw => decodeEntities raw
  | _ => []

def Builder.step (mode : MarkupMode) (b : Builder) : Event → Builder
  | .text raw => b.text raw
  | .openTag tag => b.openTag mode tag
  | .closeTag name => b.closeTag name

/-- mirrors src/mapping/markup_tree.cpp:361-385 -/
def rawTextEvents (name rest : Bytes) : List Event × Bytes :=
  match findFolded (ascii "</" ++ name) rest with
  | none => ([], [])
  | some (body, close) =>
    ([.text body, .closeTag name],
      match findByte 0x3E close with
      | none => []
      | some (_, gt) => gt.drop 1)

/-- The calls at one '<', the text still pending and the rest.
mirrors src/mapping/markup_tree.cpp:322-387 -/
def openEvents (mode : MarkupMode) (raw open_ : Bytes) : List Event × Bytes × Bytes :=
  if (ascii "<!--").isPrefixOf open_ then ([.text raw], [], behind (ascii "-->") (open_.drop 4))
  else if (ascii "<![CDATA[").isPrefixOf open_ then
    let data := match findSub (ascii "]]>") (open_.drop 9) with
      | none => open_.drop 9
      | some (data, _) => data
    let literal := data.flatMap fun c => if c == 0x26 then ascii "&amp;" else [c]
    ([.text raw, .text literal], [], behind (ascii "]]>") (open_.drop 9))
  else if (open_.drop 1).head? == some 0x21 || (open_.drop 1).head? == some 0x3F then
    ([.text raw], [], behind [0x3E] (open_.drop 2))
  else
    match readTag mode (open_.take kMaxTagBytes) with
    | none => ([], raw ++ open_.take 1, open_.drop 1)
    | some (tag, left) =>
      let rest := open_.drop ((open_.take kMaxTagBytes).length - left.length)
      if tag.closing then ([.text raw, .closeTag tag.name], [], rest)
      else if mode == .html && (tag.name == ascii "script" || tag.name == ascii "style") then
        let r := rawTextEvents tag.name rest
        (.text raw :: .openTag tag :: r.1, [], r.2)
      else ([.text raw, .openTag tag], [], rest)

def eventsLoop (mode : MarkupMode) : Nat → Bytes → Bytes → List Event
  | 0, pending, rest => [.text (pending ++ rest)]
  | n + 1, pending, rest =>
    match findByte 0x3C rest with
    | none => [.text (pending ++ rest)]
    | some (before, open_) =>
      let r := openEvents mode (pending ++ before) open_
      r.1 ++ eventsLoop mode n r.2.1 r.2.2

/-- The calls `parse_markup` makes.
mirrors src/mapping/markup_tree.cpp:312-391 -/
def parseEvents (mode : MarkupMode) (text : Bytes) : List Event :=
  eventsLoop mode text.length [] text

section Calls
variable (mode : MarkupMode)

theorem skipRawText_events (b : Builder) (name rest : Bytes) : skipRawText b name rest =
    ((rawTextEvents name rest).1.foldl (Builder.step mode) b, (rawTextEvents name rest).2) := by
  unfold skipRawText rawTextEvents
  cases findFolded (ascii "</" ++ name) rest with
  | none => rfl
  | some r => rfl

/-- The parser never looks at the tree it builds. -/
theorem parseOpen_events (b : Builder) (raw open_ : Bytes) :
    parseOpen mode b raw open_ = ((openEvents mode raw open_).1.foldl (Builder.step mode) b,
      (openEvents mode raw open_).2.1, (openEvents mode raw open_).2.2) := by
  unfold parseOpen openEvents
  split
  · rfl
  · split
    · rfl
    · split
      · rfl
      · cases readTag mode (open_.take kMaxTagBytes) with
        | none => rfl
        | some r =>
          obtain ⟨tag, left⟩ := r
          dsimp only
          split
          · rfl
          · split
            · rw [skipRawText_events mode]
              rfl
            · rfl

theorem parseLoop_events : ∀ (n : Nat) (b : Builder) (pending rest : Bytes),
    parseLoop mode n b pending rest =
      (eventsLoop mode n pending rest).foldl (Builder.step mode) b := by
  intro n
  induction n with
  | zero => intro b pending rest; rfl
  | succ n ih =>
    intro b pending rest
    simp only [parseLoop, eventsLoop]
    cases findByte 0x3C rest with
    | none => rfl
    | some r =>
      dsimp only
      rw [parseOpen_events, ih, List.foldl_append]

theorem parseMarkup_events (text : Bytes) : parseMarkup mode text =
    ((parseEvents mode text).foldl (Builder.step mode) ⟨[], []⟩).take := by
  rw [parseMarkup, parseLoop_events]
  rfl

end Calls

/-! ## The pieces are the input -/

section Pieces
variable {mode : MarkupMode}

theorem take_behind {l rest : Bytes} (h : ∃ before, l = before ++ rest) :
    l.take (l.length - rest.length) ++ rest = l := by
  obtain ⟨before, rfl⟩ := h
  rw [List.length_append, Nat.add_sub_cancel, List.take_left]

theorem behind_suffix (needle l : Bytes) : ∃ before, l = before ++ behind needle l := by
  unfold behind
  split
  · exact ⟨l, (List.append_nil l).symm⟩
  · rename_i before rest hfind
    refine ⟨before ++ rest.take needle.length, ?_⟩
    rw [List.append_assoc, List.take_append_drop]
    exact findSub_eq hfind

theorem behindClose_suffix (close : Bytes) : ∃ before, close = before ++ behindClose close := by
  unfold behindClose
  split
  · exact ⟨close, (List.append_nil close).symm⟩
  · rename_i before gt hfind
    refine ⟨before ++ gt.take 1, ?_⟩
    rw [List.append_assoc, List.take_append_drop]
    exact (findByte_eq hfind).1

theorem suffix_of_drop {l rest : Bytes} {n : Nat} (h : ∃ before, l.drop n = before ++ rest) :
    ∃ before, l = before ++ rest := by
  obtain ⟨before, hbefore⟩ := h
  exact ⟨l.take n ++ before, by rw [List.append_assoc, ← hbefore, List.take_append_drop]⟩

theorem isPrefixOf_drop {needle l : Bytes} (h : needle.isPrefixOf l = true) :
    needle ++ l.drop needle.length = l := by
  obtain ⟨rest, rfl⟩ := List.isPrefixOf_iff_prefix.1 h
  rw [List.drop_left]

/-- What `pieceAt` takes off the text is its pieces. -/
theorem pieceAt_source {l after : Bytes} {ps : List MarkupPiece}
    (h : pieceAt mode l = some (ps, after)) :
    ps.flatMap MarkupPiece.source ++ after = l := by
  unfold pieceAt at h
  split at h
  · cases h
  split at h
  · cases h
    simp only [markupUpTo, List.flatMap_cons, List.flatMap_nil, MarkupPiece.source, List.append_nil]
    exact take_behind (suffix_of_drop (behind_suffix _ _))
  split at h
  · rename_i hcdata
    have hdrop := isPrefixOf_drop hcdata
    have hlen : (ascii "<![CDATA[").length = 9 := by decide
    rw [hlen] at hdrop
    split at h
    · cases h
      simpa [MarkupPiece.source] using hdrop
    · rename_i content rest hfind
      cases h
      have hclose : ascii "]]>" ++ rest.drop 3 = rest := by
        obtain ⟨more, rfl⟩ := findSub_starts hfind
        rw [show 3 = (ascii "]]>").length from by decide, List.drop_left]
      simp only [List.flatMap_cons, List.flatMap_nil, MarkupPiece.source, List.append_nil,
        List.append_assoc]
      rw [hclose, ← findSub_eq hfind]
      exact hdrop
  split at h
  · cases h
    simp only [markupUpTo, List.flatMap_cons, List.flatMap_nil, MarkupPiece.source, List.append_nil]
    exact take_behind (suffix_of_drop (behind_suffix _ _))
  split at h
  · cases h
  dsimp only at h
  split at h
  · split at h
    · cases h
      simp [MarkupPiece.source]
    · rename_i body close hfind
      cases h
      have hclose := take_behind (behindClose_suffix close)
      simp only [markupUpTo, List.flatMap_cons, List.flatMap_nil, MarkupPiece.source,
        List.append_nil, List.append_assoc]
      rw [hclose, ← findFolded_eq hfind, List.take_append_drop]
  · cases h
    simp [MarkupPiece.source]

theorem markupPiecesFrom_source : ∀ (n : Nat) (pending rest : Bytes),
    (markupPiecesFrom mode n pending rest).flatMap MarkupPiece.source = pending ++ rest := by
  intro n
  induction n with
  | zero => intro pending rest; simp [markupPiecesFrom, MarkupPiece.source]
  | succ n ih =>
    intro pending rest
    cases rest with
    | nil => simp [markupPiecesFrom, MarkupPiece.source]
    | cons b rest =>
      rw [markupPiecesFrom]
      split
      · rw [ih, List.append_assoc]
        rfl
      · rename_i ps after hpiece
        rw [List.flatMap_cons, List.flatMap_append, ih, List.nil_append, pieceAt_source hpiece]
        rfl

/-- **Nothing is left out**: the pieces, one after the other, are the text. -/
theorem markupPieces_source (text : Bytes) :
    (markupPieces mode text).flatMap MarkupPiece.source = text :=
  markupPiecesFrom_source _ _ _

end Pieces

/-! ## The calls hand over the pieces -/

section Handed
variable (mode : MarkupMode)

/-- CDATA passes the decoder unchanged. -/
theorem decodeEntities_literal (content : Bytes) :
    decodeEntities (content.flatMap fun c => if c == 0x26 then ascii "&amp;" else [c]) =
      content := by
  refine decodeEntities_escaped (fun c => ?_) content
  by_cases hc : c = 0x26
  · subst hc
    exact Or.inr ⟨ascii "amp", by decide, by decide, by decide, by decide⟩
  · exact Or.inl ⟨if_neg (by simpa using hc), hc⟩

/-- A '<' that is character data stays pending; else the calls hand over the
pending text and what the markup says. -/
theorem openEvents_pieceAt {l : Bytes} (raw : Bytes) (hl : l.head? = some 0x3C) :
    match pieceAt mode l with
    | none => openEvents mode raw l = ([], raw ++ l.take 1, l.drop 1)
    | some (ps, after) => ∃ events, openEvents mode raw l = (.text raw :: events, [], after) ∧
        events.flatMap Event.chars = ps.flatMap MarkupPiece.chars := by
  have hopen : (l.head? != some 0x3C) = false := by simp [hl]
  unfold pieceAt openEvents
  rw [hopen]
  simp only [Bool.false_eq_true, if_false]
  by_cases hcomment : (ascii "<!--").isPrefixOf l = true
  · simp only [hcomment, if_true]
    exact ⟨[], rfl, rfl⟩
  by_cases hcdata : (ascii "<![CDATA[").isPrefixOf l = true
  · simp only [hcomment, hcdata, if_true, Bool.false_eq_true, if_false, behind]
    cases findSub (ascii "]]>") (l.drop 9) with
    | none => exact ⟨_, rfl, by
      simp only [List.flatMap_cons, List.flatMap_nil, Event.chars, MarkupPiece.chars,
        decodeEntities_literal]⟩
    | some r => exact ⟨_, rfl, by
      simp only [List.flatMap_cons, List.flatMap_nil, Event.chars, MarkupPiece.chars,
        decodeEntities_literal]⟩
  by_cases hdecl : ((l.drop 1).head? == some 0x21 || (l.drop 1).head? == some 0x3F) = true
  · simp only [hcomment, hcdata, hdecl, if_true, Bool.false_eq_true, if_false]
    exact ⟨[], rfl, rfl⟩
  simp only [hcomment, hcdata, hdecl, Bool.false_eq_true, if_false]
  cases readTag mode (l.take kMaxTagBytes) with
  | none => rfl
  | some r =>
    obtain ⟨tag, left⟩ := r
    dsimp only
    cases hclosing : tag.closing with
    | true =>
      simp only [isRawText, hclosing, Bool.not_true, Bool.false_and, Bool.false_eq_true, if_false,
        if_true]
      exact ⟨_, rfl, rfl⟩
    | false =>
      simp only [isRawText, hclosing, Bool.not_false, Bool.true_and, Bool.false_eq_true, if_false]
      by_cases hraw : (mode == .html && (tag.name == ascii "script" || tag.name == ascii "style")) =
        true
      · simp only [hraw, if_true, rawTextEvents]
        cases findFolded (ascii "</" ++ tag.name)
            (l.drop ((l.take kMaxTagBytes).length - left.length)) with
        | none => exact ⟨_, rfl, rfl⟩
        | some r => exact ⟨_, rfl, by simp [Event.chars, MarkupPiece.chars, markupUpTo]⟩
      · simp only [hraw, Bool.false_eq_true, if_false]
        exact ⟨_, rfl, rfl⟩

theorem openEvents_length (raw : Bytes) {l : Bytes} (hl : 0 < l.length) :
    (openEvents mode raw l).2.2.length < l.length := by
  have hlen := parseOpen_length mode ⟨[], []⟩ raw hl
  rwa [parseOpen_events] at hlen

/-- Bytes other than '<' are data. -/
theorem markupPiecesFrom_skip {before rest : Bytes} (h : (0x3C : UInt8) ∉ before) :
    ∀ (n : Nat) (pending : Bytes), before.length ≤ n →
      markupPiecesFrom mode n pending (before ++ rest) =
        markupPiecesFrom mode (n - before.length) (pending ++ before) rest := by
  induction before with
  | nil => intro n pending _; simp
  | cons b before ih =>
    intro n pending hn
    rw [List.mem_cons, not_or] at h
    rw [List.length_cons] at hn
    obtain ⟨m, rfl⟩ : ∃ m, n = m + 1 := ⟨n - 1, by omega⟩
    have hnone : pieceAt mode (b :: (before ++ rest)) = none := by
      rw [pieceAt, if_pos]
      simpa using Ne.symm h.1
    rw [List.cons_append, markupPiecesFrom, hnone]
    dsimp only
    rw [ih h.2 m (pending ++ [b]) (by omega), List.append_assoc, List.length_cons,
      Nat.add_sub_add_right]
    rfl

theorem pieceAt_length {l after : Bytes} {ps : List MarkupPiece}
    (h : pieceAt mode l = some (ps, after)) :
    after.length < l.length := by
  have hhead : l.head? = some 0x3C := by
    by_contra hne
    rw [pieceAt, if_pos (by simpa using hne)] at h
    cases h
  have hpos : 0 < l.length := by
    cases l with
    | nil => cases hhead
    | cons b l => exact Nat.succ_pos _
  have hpiece := openEvents_pieceAt mode [] hhead
  rw [h] at hpiece
  obtain ⟨events, heq, -⟩ := hpiece
  have hlen := openEvents_length mode [] hpos
  rwa [heq] at hlen

theorem markupPiecesFrom_fuel : ∀ {n m : Nat} {pending rest : Bytes},
    rest.length ≤ n → rest.length ≤ m →
    markupPiecesFrom mode n pending rest = markupPiecesFrom mode m pending rest := by
  intro n
  induction n with
  | zero =>
    intro m pending rest hn _
    rw [List.length_eq_zero_iff.1 (Nat.le_zero.1 hn)]
    cases m <;> simp [markupPiecesFrom]
  | succ n ih =>
    intro m pending rest hn hm
    cases rest with
    | nil => cases m <;> simp [markupPiecesFrom]
    | cons b rest =>
      rw [List.length_cons] at hn hm
      obtain ⟨k, rfl⟩ : ∃ k, m = k + 1 := ⟨m - 1, by omega⟩
      simp only [markupPiecesFrom]
      cases hpiece : pieceAt mode (b :: rest) with
      | none => exact ih (by omega) (by omega)
      | some r =>
        have hlen :=
          pieceAt_length mode (show pieceAt mode (b :: rest) = some (r.1, r.2) from hpiece)
        rw [List.length_cons] at hlen
        dsimp only
        rw [ih (show r.2.length ≤ n by omega) (show r.2.length ≤ k by omega)]

theorem notMem_of_findByte {c : UInt8} {l : Bytes} (h : findByte c l = none) : c ∉ l := by
  unfold findByte at h
  split at h
  · rename_i hdrop
    intro hmem
    have := List.dropWhile_eq_nil_iff.1 hdrop c hmem
    simp at this
  · cases h

/-- The calls hand over the pieces' characters, in order. -/
theorem eventsLoop_chars : ∀ {n : Nat} {pending rest : Bytes}, rest.length ≤ n →
    (eventsLoop mode n pending rest).flatMap Event.chars =
      (markupPiecesFrom mode n pending rest).flatMap MarkupPiece.chars := by
  intro n
  induction n with
  | zero => intro pending rest _; rfl
  | succ n ih =>
    intro pending rest hn
    rw [eventsLoop]
    cases hfind : findByte 0x3C rest with
    | none =>
      have hskip :=
        @markupPiecesFrom_skip mode rest [] (notMem_of_findByte hfind) (n + 1) pending hn
      rw [List.append_nil] at hskip
      rw [hskip]
      cases n + 1 - rest.length <;> simp [markupPiecesFrom, Event.chars, MarkupPiece.chars]
    | some r =>
      obtain ⟨before, open_⟩ := r
      obtain ⟨hsplit, hpos⟩ := findByte_eq hfind
      obtain ⟨hopen, hbefore⟩ := findByte_head hfind
      have hhead : open_.head? = some 0x3C := by rw [hopen]; rfl
      have hlen := congrArg List.length hsplit
      rw [List.length_append] at hlen
      obtain ⟨m, hm⟩ : ∃ m, n + 1 - before.length = m + 1 := ⟨n - before.length, by omega⟩
      have hpiece := openEvents_pieceAt mode (pending ++ before) hhead
      dsimp only
      rw [hsplit, markupPiecesFrom_skip mode hbefore (n + 1) pending (by omega), hm,
        List.flatMap_append]
      obtain ⟨tail, htail⟩ : ∃ tail, open_ = 0x3C :: tail := ⟨_, hopen⟩
      subst htail
      rw [List.length_cons] at hlen
      rw [markupPiecesFrom]
      cases hat : pieceAt mode (0x3C :: tail) with
      | none =>
        rw [hat] at hpiece
        rw [hpiece]
        dsimp only
        rw [ih (show ((0x3C :: tail).drop 1).length ≤ n by simp; omega),
          markupPiecesFrom_fuel mode (show ((0x3C :: tail).drop 1).length ≤ n by simp; omega)
            (show ((0x3C :: tail).drop 1).length ≤ m by simp; omega)]
        rfl
      | some r =>
        obtain ⟨ps, after⟩ := r
        have hafter := pieceAt_length mode hat
        rw [List.length_cons] at hafter
        rw [hat] at hpiece
        obtain ⟨events, heq, hchars⟩ := hpiece
        rw [heq]
        dsimp only
        rw [ih (show after.length ≤ n by omega),
          markupPiecesFrom_fuel mode (show after.length ≤ n by omega)
            (show after.length ≤ m by omega)]
        simp only [List.flatMap_cons, List.flatMap_append, hchars, List.append_assoc]
        rfl

theorem parseEvents_chars (text : Bytes) :
    (parseEvents mode text).flatMap Event.chars =
      (markupPieces mode text).flatMap MarkupPiece.chars :=
  eventsLoop_chars mode (Nat.le_refl _)

end Handed

/-! ## The tree keeps what it is handed -/

mutual
/-- The text nodes below a node, in order. -/
def MarkupNode.chars : MarkupNode → Bytes
  | .text text => text
  | .element _ _ children => charsIn children
def charsIn : List MarkupNode → Bytes
  | [] => []
  | child :: rest => child.chars ++ charsIn rest
end

/-- The characters so far: the root's, then those of the open elements from
the outermost to the innermost. -/
def Builder.chars (b : Builder) : Bytes :=
  charsIn b.root ++ b.frames.reverse.flatMap fun f => charsIn f.children

section Tree

theorem charsIn_append (l m : List MarkupNode) : charsIn (l ++ m) = charsIn l ++ charsIn m := by
  induction l with
  | nil => rfl
  | cons node l ih => rw [List.cons_append, charsIn, charsIn, ih, List.append_assoc]

theorem charsIn_extendText (nodes : List MarkupNode) (raw : Bytes) :
    charsIn (extendText nodes raw) = charsIn nodes ++ decodeEntities raw := by
  unfold extendText
  split
  · rename_i text hlast
    have hsplit : nodes = nodes.dropLast ++ [.text text] := by
      obtain ⟨front, rfl⟩ := List.getLast?_eq_some_iff.1 hlast
      rw [List.dropLast_concat]
    conv_rhs => rw [hsplit, charsIn_append]
    rw [charsIn_append, List.append_assoc]
    simp [charsIn, MarkupNode.chars]
  · rw [charsIn_append]
    simp [charsIn, MarkupNode.chars]

variable (b : Builder)

theorem chars_text (raw : Bytes) : (b.text raw).chars = b.chars ++ decodeEntities raw := by
  obtain ⟨frames, root⟩ := b
  unfold Builder.text
  split
  · rename_i hempty
    have hdecode : decodeEntities raw = [] := by rw [List.isEmpty_iff.1 hempty]; rfl
    rw [hdecode, List.append_nil]
  · cases frames with
    | nil => simp [Builder.chars, charsIn_extendText]
    | cons f rest => simp [Builder.chars, charsIn_extendText]

theorem chars_addChild (node : MarkupNode) : (b.addChild node).chars = b.chars ++ node.chars := by
  obtain ⟨frames, root⟩ := b
  cases frames with
  | nil => simp [Builder.addChild, Builder.chars, charsIn_append, charsIn]
  | cons f rest => simp [Builder.addChild, Builder.chars, charsIn_append, charsIn]

/-- Closing an element moves no text. -/
theorem chars_pop : b.pop.chars = b.chars := by
  obtain ⟨frames, root⟩ := b
  cases frames with
  | nil => rfl
  | cons f rest =>
    rw [Builder.pop, chars_addChild]
    simp [Builder.chars, MarkupNode.chars]

theorem chars_popN (n : Nat) : ∀ b : Builder, (b.popN n).chars = b.chars := by
  induction n with
  | zero => intro b; rfl
  | succ n ih => intro b; rw [Builder.popN, ih, chars_pop]

theorem chars_openTag (mode : MarkupMode) (tag : Tag) : (b.openTag mode tag).chars = b.chars := by
  have hclose : (if mode = .html then b.implicitClose tag.name else b).chars = b.chars := by
    split
    · obtain ⟨n, hn⟩ := implicitClose_popN b tag.name
      rw [hn, chars_popN]
    · rfl
  unfold Builder.openTag
  dsimp only
  generalize (if mode = .html then b.implicitClose tag.name else b) = closed at hclose ⊢
  split
  · rw [← hclose]
    simp [Builder.chars, charsIn]
  · rw [chars_addChild, hclose]
    exact List.append_nil _

/-- One call of the parser. -/
theorem chars_step (mode : MarkupMode) (event : Event) :
    (b.step mode event).chars = b.chars ++ event.chars := by
  cases event with
  | text raw => exact chars_text b raw
  | openTag tag => exact (chars_openTag b mode tag).trans (List.append_nil _).symm
  | closeTag name =>
    obtain ⟨n, hn⟩ := closeTag_popN b name
    rw [Builder.step, hn, chars_popN]
    exact (List.append_nil _).symm

/-- All its calls. -/
theorem chars_run (mode : MarkupMode) (events : List Event) : ∀ b : Builder,
    (events.foldl (Builder.step mode) b).chars = b.chars ++ events.flatMap Event.chars := by
  induction events with
  | nil => intro b; simp
  | cons event events ih =>
    intro b
    rw [List.foldl_cons, ih, chars_step, List.flatMap_cons, List.append_assoc]

theorem length_pop : b.pop.frames.length = b.frames.length - 1 := by
  obtain ⟨frames, root⟩ := b
  cases frames with
  | nil => rfl
  | cons f rest => cases rest <;> simp [Builder.pop, Builder.addChild]

theorem frames_popN_all : ∀ b : Builder, (b.popN b.frames.length).frames = [] := by
  have haux : ∀ (n : Nat) (b : Builder), b.frames.length ≤ n → (b.popN n).frames = [] := by
    intro n
    induction n with
    | zero => intro b hb; exact List.length_eq_zero_iff.1 (Nat.le_zero.1 hb)
    | succ n ih => intro b hb; exact ih b.pop (by rw [length_pop]; omega)
  exact fun b => haux _ b (Nat.le_refl _)

theorem chars_take : b.take.chars = b.chars := by
  have hframes := frames_popN_all b
  have hchars := chars_popN b.frames.length b
  rw [Builder.take, MarkupNode.chars, ← hchars, Builder.chars, hframes]
  simp

end Tree

/-- **No character is lost or moved**: the text nodes of the tree, in order,
are the decoded data of the text, in order. -/
theorem chars_parseMarkup (mode : MarkupMode) (text : Bytes) :
    (parseMarkup mode text).chars = (markupPieces mode text).flatMap MarkupPiece.chars := by
  rw [parseMarkup_events, chars_take, chars_run, parseEvents_chars]
  rfl

end VlmConvert.L1

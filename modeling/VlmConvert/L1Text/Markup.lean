import VlmConvert.Core.Bytes

/-!
# The tolerant element tree

`src/mapping/markup_tree.cpp`. `parse_markup` never fails: an unclosed
element ends at the end of input, a stray closing tag is dropped, what does
not read as a tag is text.

The open elements are a stack of frames, innermost first; an element joins
its parent's children when it is closed (the source links it when it is
opened, which shows only in the finished tree). Positions are suffixes;
loops that advance a position by at least one byte carry the length of the
input as fuel, and `parseLoop_eq` says that it never runs out.
-/
namespace VlmConvert.L1

open Bytes

inductive MarkupMode
  | html | xml
  deriving DecidableEq, Repr

/-- A text node, or an element with its tag, attributes and children.
mirrors src/mapping/markup_tree.h:23-36 -/
inductive MarkupNode
  | text (text : Bytes)
  | element (tag : Bytes) (attrs : List (Bytes × Bytes)) (children : List MarkupNode)
  deriving Repr

def MarkupNode.isText : MarkupNode → Bool
  | .text _ => true
  | .element .. => false

def MarkupNode.tag : MarkupNode → Bytes
  | .text _ => []
  | .element tag _ _ => tag

def MarkupNode.attrs : MarkupNode → List (Bytes × Bytes)
  | .text _ => []
  | .element _ attrs _ => attrs

def MarkupNode.children : MarkupNode → List MarkupNode
  | .text _ => []
  | .element _ _ children => children

/-- mirrors src/mapping/markup_tree.cpp:216-227 -/
def MarkupNode.hasAttr (node : MarkupNode) (name : Bytes) : Bool := node.attrs.any (·.1 == name)

def MarkupNode.attr (node : MarkupNode) (name fallback : Bytes) : Bytes :=
  match node.attrs.find? (·.1 == name) with
  | some a => a.2
  | none => fallback

/-! ## Entities -/

/-- mirrors src/mapping/markup_tree.cpp:229-248 -/
def appendUtf8 (cp : Nat) : Bytes :=
  let cp := if cp = 0 ∨ cp > 0x10FFFF ∨ (0xD800 ≤ cp ∧ cp ≤ 0xDFFF) then 0xFFFD else cp
  if cp < 0x80 then [cp.toUInt8]
  else if cp < 0x800 then [(0xC0 + cp / 64).toUInt8, (0x80 + cp % 64).toUInt8]
  else if cp < 0x10000 then
    [(0xE0 + cp / 4096).toUInt8, (0x80 + cp / 64 % 64).toUInt8, (0x80 + cp % 64).toUInt8]
  else
    [(0xF0 + cp / 262144).toUInt8, (0x80 + cp / 4096 % 64).toUInt8, (0x80 + cp / 64 % 64).toUInt8,
      (0x80 + cp % 64).toUInt8]

/-- The value of a digit of a numeric reference. -/
def digitValue (hex : Bool) (c : UInt8) : Option Nat :=
  if isDigit c then some (c.toNat - 0x30)
  else if hex && (0x61 ≤ toLower c && toLower c ≤ 0x66) then some ((toLower c).toNat - 0x61 + 10)
  else none

/-- The digits of a numeric reference, stopping past U+10FFFF. -/
def referenceValue (hex : Bool) : Nat → Bytes → Option Nat
  | value, [] => some value
  | value, c :: digits =>
    match digitValue hex c with
    | none => none
    | some d =>
      if value > 0x10FFFF then none
      else referenceValue hex (value * (if hex then 16 else 10) + d) digits

/-- What an entity stands for; `none`: it stays as it is.
mirrors src/mapping/markup_tree.cpp:265-302 -/
def entity (name : Bytes) : Option Bytes :=
  if name == ascii "amp" then some [0x26]
  else if name == ascii "lt" then some [0x3C]
  else if name == ascii "gt" then some [0x3E]
  else if name == ascii "quot" then some [0x22]
  else if name == ascii "apos" then some [0x27]
  else if name == ascii "nbsp" then some (appendUtf8 0xA0)
  else
    match name with
    | 0x23 :: x :: rest =>
      let hex := x == 0x78 || x == 0x58
      let digits := if hex then rest else x :: rest
      if digits.isEmpty then none else (referenceValue hex 0 digits).map appendUtf8
    | _ => none

def decodeEntitiesAux : Nat → Bytes → Bytes
  | 0, l => l
  | _ + 1, [] => []
  | n + 1, b :: rest =>
    if b != 0x26 then b :: decodeEntitiesAux n rest
    else
      match findByte 0x3B rest with
      | none => b :: decodeEntitiesAux n rest
      | some (name, semi) =>
        if name.length + 1 > 10 then b :: decodeEntitiesAux n rest
        else
          match entity name with
          | some out => out ++ decodeEntitiesAux n (semi.drop 1)
          | none => b :: decodeEntitiesAux n rest

/-- mirrors src/mapping/markup_tree.cpp:250-310 -/
def decodeEntities (text : Bytes) : Bytes := decodeEntitiesAux text.length text

/-- Text without '&' is itself. -/
theorem decodeEntities_eq {text : Bytes} (h : 0x26 ∉ text) : decodeEntities text = text := by
  have haux : ∀ (n : Nat) (text : Bytes), 0x26 ∉ text → decodeEntitiesAux n text = text := by
    intro n
    induction n with
    | zero => intro text _; rfl
    | succ n ih =>
      intro text h
      cases text with
      | nil => rfl
      | cons b rest =>
        simp only [List.mem_cons, not_or] at h
        have hb : (b != 0x26) = true := by simpa using Ne.symm h.1
        rw [decodeEntitiesAux, if_pos hb, ih rest h.2]
  exact haux _ _ h

/-- An escaping that the decoder undoes, byte by byte. -/
def Decodes (escape : UInt8 → Bytes) : Prop :=
  ∀ c, (escape c = [c] ∧ c ≠ 0x26) ∨
    ∃ name, escape c = 0x26 :: (name ++ [0x3B]) ∧ 0x3B ∉ name ∧ name.length < 10 ∧
      entity name = some [c]

/-- An escaped text is decoded to itself. -/
theorem decodeEntities_escaped {escape : UInt8 → Bytes} (h : Decodes escape) (text : Bytes) :
    decodeEntities (text.flatMap escape) = text := by
  have haux : ∀ (text : Bytes) (n : Nat), (text.flatMap escape).length ≤ n →
      decodeEntitiesAux n (text.flatMap escape) = text := by
    intro text
    induction text with
    | nil => intro n _; cases n <;> rfl
    | cons c text ih =>
      intro n hn
      rw [List.flatMap_cons] at hn ⊢
      rcases h c with ⟨hc, hne⟩ | ⟨name, hc, hsemi, hlen, hentity⟩
      · rw [hc, List.singleton_append, List.length_cons] at hn
        obtain ⟨m, rfl⟩ : ∃ m, n = m + 1 := ⟨n - 1, by omega⟩
        rw [hc, List.singleton_append, decodeEntitiesAux, if_pos (by simpa using hne),
          ih m (by omega)]
      · rw [hc, List.cons_append, List.length_cons] at hn
        obtain ⟨m, rfl⟩ : ∃ m, n = m + 1 := ⟨n - 1, by omega⟩
        rw [hc, List.cons_append, List.append_assoc, List.singleton_append, decodeEntitiesAux,
          if_neg (by decide), findByte_append hsemi]
        simp only [hentity, List.drop_one, List.tail_cons]
        rw [if_neg (by omega), ih m (by simp only [List.length_append] at hn; omega)]
        rfl
  exact haux text _ (Nat.le_refl _)

/-! ## Tags -/

def isNameChar (c : UInt8) : Bool :=
  isAlpha c || isDigit c || c == 0x2D || c == 0x5F || c == 0x3A || c == 0x2E || 0x80 ≤ c

def fold (mode : MarkupMode) (name : Bytes) : Bytes :=
  match mode with
  | .html => name.map toLower
  | .xml => name

/-- mirrors src/mapping/markup_tree.cpp:47-52 -/
structure Tag where
  name : Bytes
  closing : Bool
  selfClosing : Bool
  attrs : List (Bytes × Bytes)
  deriving DecidableEq, Repr

/-- `text[i] == '/' && text[i + 1] == '>'` -/
def atSelfClose : Bytes → Bool
  | a :: b :: _ => a == 0x2F && b == 0x3E
  | _ => false

/-- An attribute name ends at a blank, '=', '>' or "/>". -/
def attrName : Bytes → Bytes × Bytes
  | [] => ([], [])
  | c :: rest =>
    if isSpace c || c == 0x3D || c == 0x3E || atSelfClose (c :: rest) then ([], c :: rest)
    else (c :: (attrName rest).1, (attrName rest).2)

/-- The value behind an attribute name, if there is one; `none`: an
unterminated quote.
mirrors src/mapping/markup_tree.cpp:97-117 -/
def attrValue (l : Bytes) : Option (Bytes × Bytes) :=
  match l.dropWhile isSpace with
  | 0x3D :: rest =>
    match rest.dropWhile isSpace with
    | [] => some ([], [])
    | q :: inner =>
      if q == 0x22 || q == 0x27 then
        match findByte q inner with
        | none => none
        | some (value, close) => some (decodeEntities value, close.drop 1)
      else
        let p := fun c => !isSpace c && c != 0x3E
        some (decodeEntities ((q :: inner).takeWhile p), (q :: inner).dropWhile p)
  | rest => some ([], rest)

/-- The attribute loop, from behind the tag name; returns the tag and what
is left behind its '>'.
mirrors src/mapping/markup_tree.cpp:73-124 -/
def readAttrs (mode : MarkupMode) : Nat → Tag → Bytes → Option (Tag × Bytes)
  | 0, _, _ => none
  | n + 1, tag, l =>
    match l.dropWhile isSpace with
    | [] => none
    | c :: rest =>
      if c == 0x3E then some (tag, rest)
      else if atSelfClose (c :: rest) then some ({ tag with selfClosing := true }, rest.drop 1)
      else
        match attrName (c :: rest) with
        | ([], _) => readAttrs mode n tag rest
        | (name, after) =>
          match attrValue after with
          | none => none
          | some (value, after') =>
            let tag' := if tag.closing then tag
              else { tag with attrs := tag.attrs ++ [(fold mode name, value)] }
            readAttrs mode n tag' after'

/-- One tag, from its '<'; `none`: the '<' is character data.
mirrors src/mapping/markup_tree.cpp:57-125 -/
def readTag (mode : MarkupMode) (window : Bytes) : Option (Tag × Bytes) :=
  let l := window.drop 1
  let closing := l.head? == some 0x2F
  let l := if closing then l.drop 1 else l
  match l.takeWhile isNameChar with
  | [] => none
  | c :: name =>
    if !isAlpha c then none
    else readAttrs mode window.length ⟨fold mode (c :: name), closing, false, []⟩
      (l.dropWhile isNameChar)

/-! ## The tree builder -/

/-- An open element. -/
structure Frame where
  tag : Bytes
  attrs : List (Bytes × Bytes)
  children : List MarkupNode

/-- The stack, innermost first: the open elements and the root's children. -/
structure Builder where
  frames : List Frame
  root : List MarkupNode

def kMaxMarkupDepth : Nat := 128
def kMaxTagBytes : Nat := 64 * 1024

def kVoidTags : List Bytes := ["area", "base", "br", "col", "embed", "hr", "img", "input", "link",
  "meta", "param", "source", "track", "wbr"].map ascii

def kHtmlBlockTags : List Bytes := ["div", "p", "h1", "h2", "h3", "h4", "h5", "h6", "table", "ul",
  "ol", "li", "pre", "figure", "form", "caption", "figcaption", "hr"].map ascii

/-- A node at the end of the innermost open element's children. -/
def Builder.addChild (b : Builder) (node : MarkupNode) : Builder :=
  match b.frames with
  | [] => { b with root := b.root ++ [node] }
  | f :: rest => { b with frames := { f with children := f.children ++ [node] } :: rest }

/-- Takes the innermost element off the stack. -/
def Builder.pop (b : Builder) : Builder :=
  match b.frames with
  | [] => b
  | f :: rest => Builder.addChild { b with frames := rest } (.element f.tag f.attrs f.children)

def Builder.popN : Nat → Builder → Builder
  | 0, b => b
  | n + 1, b => Builder.popN n b.pop

/-- Text behind text extends it. -/
def extendText (nodes : List MarkupNode) (raw : Bytes) : List MarkupNode :=
  match nodes.getLast? with
  | some (.text t) => nodes.dropLast ++ [.text (t ++ decodeEntities raw)]
  | _ => nodes ++ [.text (decodeEntities raw)]

/-- mirrors src/mapping/markup_tree.cpp:136-150 -/
def Builder.text (b : Builder) (raw : Bytes) : Builder :=
  if raw.isEmpty then b
  else
    match b.frames with
    | [] => { b with root := extendText b.root raw }
    | f :: rest => { b with frames := { f with children := extendText f.children raw } :: rest }

/-- How many elements to take off so that the innermost one with a tag in
`targets` is closed; none past a boundary.
mirrors src/mapping/markup_tree.cpp:183-195 -/
def closeUpTo (targets : List Bytes) (boundary : Bytes → Bool) : List Frame → Option Nat
  | [] => none
  | f :: rest =>
    if f.tag ∈ targets then some 1
    else if boundary f.tag then none
    else (closeUpTo targets boundary rest).map (· + 1)

/-- mirrors src/mapping/markup_tree.cpp:182-209 -/
def Builder.implicitClose (b : Builder) (name : Bytes) : Builder :=
  let go (targets : List Bytes) (boundary : Bytes → Bool) :=
    match closeUpTo targets boundary b.frames with
    | none => b
    | some n => b.popN n
  if name == ascii "td" || name == ascii "th" then
    go [ascii "td", ascii "th"] fun tag => tag == ascii "tr" || tag == ascii "table"
  else if name == ascii "tr" then go [ascii "tr"] fun tag => tag == ascii "table"
  else if name == ascii "li" then go [ascii "li"] fun tag => tag == ascii "ul" || tag == ascii "ol"
  else if name == ascii "p" then
    go [ascii "p"] fun tag => tag != ascii "p" && decide (tag ∈ kHtmlBlockTags)
  else b

/-- The stack's size counts the root. A void, self-closed or too deep
element is linked but not opened.
mirrors src/mapping/markup_tree.cpp:152-166 -/
def Builder.openTag (mode : MarkupMode) (b : Builder) (tag : Tag) : Builder :=
  let b := if mode = .html then b.implicitClose tag.name else b
  let empty := tag.selfClosing || (mode == .html && decide (tag.name ∈ kVoidTags))
  if !empty && decide (b.frames.length + 1 ≤ kMaxMarkupDepth) then
    { b with frames := ⟨tag.name, tag.attrs, []⟩ :: b.frames }
  else b.addChild (.element tag.name tag.attrs [])

/-- mirrors src/mapping/markup_tree.cpp:168-175 -/
def Builder.closeTag (b : Builder) (name : Bytes) : Builder :=
  match b.frames.findIdx? (·.tag == name) with
  | none => b
  | some i => b.popN (i + 1)

section Close
variable (b : Builder) (name : Bytes)

theorem closed_popN (closed : Option Nat) : ∃ n, (match closed with
    | none => b
    | some n => b.popN n) = b.popN n := by
  cases closed with
  | none => exact ⟨0, rfl⟩
  | some n => exact ⟨n, rfl⟩

theorem implicitClose_popN : ∃ n, b.implicitClose name = b.popN n := by
  unfold Builder.implicitClose
  dsimp only
  split
  · exact closed_popN b _
  split
  · exact closed_popN b _
  split
  · exact closed_popN b _
  split
  · exact closed_popN b _
  · exact ⟨0, rfl⟩

theorem closeTag_popN : ∃ n, b.closeTag name = b.popN n := by
  unfold Builder.closeTag
  cases b.frames.findIdx? (·.tag == name) with
  | none => exact ⟨0, rfl⟩
  | some i => exact ⟨i + 1, rfl⟩

end Close

/-- mirrors src/mapping/markup_tree.cpp:177 -/
def Builder.take (b : Builder) : MarkupNode :=
  .element (ascii "root") [] (b.popN b.frames.length).root

/-! ## The parser -/

/-- The body of a `script` or `style` element ends at its closing tag, in
any case. -/
def findFolded (closer : Bytes) : Bytes → Option (Bytes × Bytes)
  | [] => none
  | b :: rest =>
    if b == 0x3C && ((b :: rest).take closer.length).map toLower == closer then some ([], b :: rest)
    else (findFolded closer rest).map fun r => (b :: r.1, r.2)

/-- Behind an opened `script` or `style` element.
mirrors src/mapping/markup_tree.cpp:361-385 -/
def skipRawText (b : Builder) (name rest : Bytes) : Builder × Bytes :=
  match findFolded (ascii "</" ++ name) rest with
  | none => (b, [])
  | some (body, close) =>
    let after := match findByte 0x3E close with
      | none => []
      | some (_, gt) => gt.drop 1
    ((b.text body).closeTag name, after)

/-- The rest behind `needle`, or nothing. -/
def behind (needle l : Bytes) : Bytes :=
  match findSub needle l with
  | none => []
  | some (_, rest) => rest.drop needle.length

/-- What one '<' of the text did: the builder, the text still pending and
the rest. `raw` is the text before it, `open_` starts with it.
mirrors src/mapping/markup_tree.cpp:322-387 -/
def parseOpen (mode : MarkupMode) (b : Builder) (raw open_ : Bytes) : Builder × Bytes × Bytes :=
  if (ascii "<!--").isPrefixOf open_ then (b.text raw, [], behind (ascii "-->") (open_.drop 4))
  else if (ascii "<![CDATA[").isPrefixOf open_ then
    let data := match findSub (ascii "]]>") (open_.drop 9) with
      | none => open_.drop 9
      | some (data, _) => data
    let literal := data.flatMap fun c => if c == 0x26 then ascii "&amp;" else [c]
    ((b.text raw).text literal, [], behind (ascii "]]>") (open_.drop 9))
  else if (open_.drop 1).head? == some 0x21 || (open_.drop 1).head? == some 0x3F then
    (b.text raw, [], behind [0x3E] (open_.drop 2))
  else
    match readTag mode (open_.take kMaxTagBytes) with
    | none => (b, raw ++ open_.take 1, open_.drop 1)
    | some (tag, left) =>
      let rest := open_.drop ((open_.take kMaxTagBytes).length - left.length)
      let b := b.text raw
      if tag.closing then (b.closeTag tag.name, [], rest)
      else if mode == .html && (tag.name == ascii "script" || tag.name == ascii "style") then
        let r := skipRawText (b.openTag mode tag) tag.name rest
        (r.1, [], r.2)
      else (b.openTag mode tag, [], rest)

def parseLoop (mode : MarkupMode) : Nat → Builder → Bytes → Bytes → Builder
  | 0, b, pending, rest => b.text (pending ++ rest)
  | n + 1, b, pending, rest =>
    match findByte 0x3C rest with
    | none => b.text (pending ++ rest)
    | some (before, open_) =>
      let r := parseOpen mode b (pending ++ before) open_
      parseLoop mode n r.1 r.2.1 r.2.2

/-- mirrors src/mapping/markup_tree.cpp:312-391 -/
def parseMarkup (mode : MarkupMode) (text : Bytes) : MarkupNode :=
  (parseLoop mode text.length ⟨[], []⟩ [] text).take

/-! ## The fuel suffices -/

theorem attrName_length (l : Bytes) : (attrName l).1.length + (attrName l).2.length = l.length := by
  induction l with
  | nil => rfl
  | cons c rest ih =>
    simp only [attrName]
    split
    · simp
    · simp only [List.length_cons]; omega

theorem attrValue_length {l value rest : Bytes} (h : attrValue l = some (value, rest)) :
    rest.length ≤ l.length := by
  have h0 := List.length_dropWhile_le isSpace l
  unfold attrValue at h
  split at h
  · rename_i inner hinner
    rw [hinner, List.length_cons] at h0
    have h1 := List.length_dropWhile_le isSpace inner
    split at h
    · cases h; exact Nat.zero_le _
    · rename_i q inner' hq
      rw [hq, List.length_cons] at h1
      split at h
      · split at h
        · cases h
        · rename_i v close hf
          cases h
          have h2 := congrArg List.length (findByte_eq hf).1
          rw [List.length_append] at h2
          rw [List.length_drop]; omega
      · cases h
        have h2 := List.length_dropWhile_le (fun c => !isSpace c && c != 0x3E) (q :: inner')
        rw [List.length_cons] at h2
        omega
  · cases h; exact h0

theorem readAttrs_length {mode : MarkupMode} : ∀ {n : Nat} {tag tag' : Tag} {l left : Bytes},
    readAttrs mode n tag l = some (tag', left) → left.length < l.length := by
  intro n
  induction n with
  | zero => intro tag tag' l left h; cases h
  | succ n ih =>
    intro tag tag' l left h
    have h0 := List.length_dropWhile_le isSpace l
    simp only [readAttrs] at h
    split at h
    · cases h
    · rename_i c rest hl
      rw [hl, List.length_cons] at h0
      split at h
      · cases h; omega
      split at h
      · cases h
        rw [List.length_drop]; omega
      split at h
      · have := ih h; omega
      · rename_i name after hne hname
        have h1 := attrName_length (c :: rest)
        rw [hname, List.length_cons] at h1
        dsimp only at h1
        have hpos : 0 < name.length := List.length_pos_iff.2 hne
        split at h
        · cases h
        · rename_i value after' hval
          have h2 := attrValue_length hval
          have h3 := ih h
          omega

theorem readTag_length {mode : MarkupMode} {window left : Bytes} {tag : Tag}
    (h : readTag mode window = some (tag, left)) : left.length < window.length := by
  unfold readTag at h
  simp only at h
  split at h
  · cases h
  · split at h
    · cases h
    · have h1 := readAttrs_length h
      have h2 := List.length_dropWhile_le isNameChar (if ((window.drop 1).head? == some 0x2F) = true
        then (window.drop 1).drop 1 else window.drop 1)
      have h3 : (if ((window.drop 1).head? == some 0x2F) = true then (window.drop 1).drop 1
          else window.drop 1).length ≤ window.length := by
        split <;> simp only [List.length_drop] <;> omega
      omega

theorem behind_length (needle l : Bytes) : (behind needle l).length ≤ l.length := by
  unfold behind
  split
  · exact Nat.zero_le _
  · rename_i before rest hf
    have := congrArg List.length (findSub_eq hf)
    rw [List.length_append] at this
    rw [List.length_drop]; omega

theorem findFolded_eq {closer l before rest : Bytes}
    (h : findFolded closer l = some (before, rest)) :
    l = before ++ rest := by
  induction l generalizing before with
  | nil => cases h
  | cons b l ih =>
    simp only [findFolded] at h
    split at h
    · cases h; rfl
    · simp only [Option.map_eq_some_iff, Prod.mk.injEq] at h
      obtain ⟨⟨x, y⟩, hxy, rfl, rfl⟩ := h
      rw [ih hxy]; rfl

theorem skipRawText_length (b : Builder) (name rest : Bytes) :
    (skipRawText b name rest).2.length ≤ rest.length := by
  unfold skipRawText
  split
  · exact Nat.zero_le _
  · rename_i body close hf
    have h1 := congrArg List.length (findFolded_eq hf)
    rw [List.length_append] at h1
    simp only
    split
    · exact Nat.zero_le _
    · rename_i before gt hg
      have h2 := congrArg List.length (findByte_eq hg).1
      rw [List.length_append] at h2
      rw [List.length_drop]; omega

/-- Every '<' is passed. -/
theorem parseOpen_length (mode : MarkupMode) (b : Builder) (raw : Bytes) {open_ : Bytes}
    (h : 0 < open_.length) :
    (parseOpen mode b raw open_).2.2.length < open_.length := by
  unfold parseOpen
  split
  · rename_i hp
    have h1 := behind_length (ascii "-->") (open_.drop 4)
    simp only [List.length_drop] at h1 ⊢; omega
  split
  · have h1 := behind_length (ascii "]]>") (open_.drop 9)
    simp only [List.length_drop] at h1 ⊢; omega
  split
  · have h1 := behind_length [0x3E] (open_.drop 2)
    simp only [List.length_drop] at h1 ⊢; omega
  split
  · simp only [List.length_drop]; omega
  · rename_i tag left hread
    have h1 := readTag_length hread
    have h2 : (open_.drop ((open_.take kMaxTagBytes).length - left.length)).length <
      open_.length := by
      rw [List.length_drop]; omega
    simp only
    split
    · exact h2
    split
    · exact Nat.lt_of_le_of_lt (skipRawText_length _ _ _) h2
    · exact h2

/-- The parser on the rest of a text, with as much fuel as it needs. -/
def parseRest (mode : MarkupMode) (b : Builder) (pending rest : Bytes) : Builder :=
  parseLoop mode rest.length b pending rest

theorem parseLoop_fuel {mode : MarkupMode} : ∀ {n : Nat} {b : Builder} {pending rest : Bytes},
    rest.length ≤ n → parseLoop mode n b pending rest = parseRest mode b pending rest := by
  intro n
  induction n using Nat.strong_induction_on with
  | _ n ih =>
    intro b pending rest hn
    cases n with
    | zero =>
      have hnil : rest = [] := List.length_eq_zero_iff.1 (Nat.le_zero.1 hn)
      subst hnil; rfl
    | succ n =>
      cases hr : rest with
      | nil => rfl
      | cons c rest' =>
        subst hr
        simp only [parseRest, List.length_cons, parseLoop]
        split
        · rfl
        · rename_i before open_ hf
          obtain ⟨heq, hpos⟩ := findByte_eq hf
          have h1 := congrArg List.length heq
          rw [List.length_append, List.length_cons] at h1
          rw [List.length_cons] at hn
          have h2 := parseOpen_length mode b (pending ++ before) hpos
          rw [ih n (by omega) (by omega)]
          by_cases hm : rest'.length < n + 1
          · rw [ih rest'.length hm (by omega)]
          · omega

/-! ## Well-formed tags -/

/-- The bytes `l` read as `tag`, whatever follows. -/
structure Reads (mode : MarkupMode) (l : Bytes) (tag : Tag) : Prop where
  starts : l.head? = some 0x3C ∧ (l.drop 1).head?.all (fun c => c != 0x21 && c != 0x3F) = true
  proper : 2 ≤ l.length ∧ l.length ≤ kMaxTagBytes
  read : ∀ rest, readTag mode (l ++ rest) = some (tag, rest)

/-- What a tag other than `script` and `style` does to the tree. -/
def Builder.apply (mode : MarkupMode) (b : Builder) (tag : Tag) : Builder :=
  if tag.closing then b.closeTag tag.name else b.openTag mode tag

/-- A well-formed tag is read as it stands. -/
theorem parseOpen_reads {mode : MarkupMode} {b : Builder} {raw l rest : Bytes} {tag : Tag}
    (hl : Reads mode l tag)
    (hname : (tag.name == ascii "script" || tag.name == ascii "style") = false) :
    parseOpen mode b raw (l ++ rest) = ((b.text raw).apply mode tag, [], rest) := by
  obtain ⟨c, l', rfl⟩ : ∃ c l', l = 0x3C :: c :: l' := by
    have h1 := hl.starts.1
    have h2 := hl.proper.1
    match l with
    | [] => cases h1
    | [_] => simp at h2
    | a :: c :: l' =>
        simp only [List.head?_cons, Option.some.injEq] at h1; exact ⟨c, l', by rw [h1]⟩
  have hc := hl.starts.2
  have hlen := hl.proper.2
  have hread := hl.read
  simp only [List.drop_succ_cons, List.drop_zero, List.head?_cons, Option.all_some,
    Bool.and_eq_true, bne_iff_ne, ne_eq] at hc
  have hwindow : (0x3C :: c :: l' ++ rest).take kMaxTagBytes =
      0x3C :: c :: l' ++ rest.take (kMaxTagBytes - (0x3C :: c :: l').length) := by
    rw [List.take_append, List.take_of_length_le hlen]
  have hdrop : (0x3C :: c :: l' ++ rest).drop ((0x3C :: c :: l' ++
      rest.take (kMaxTagBytes - (0x3C :: c :: l').length)).length -
      (rest.take (kMaxTagBytes - (0x3C :: c :: l').length)).length) = rest := by
    rw [List.length_append, Nat.add_sub_cancel, List.drop_left]
  have h1 : (ascii "<!--").isPrefixOf (0x3C :: c :: l' ++ rest) = false := by
    have : (0x21 == c) = false := by simpa using Ne.symm hc.1
    simp [ascii, List.isPrefixOf, this]
  have h2 : (ascii "<![CDATA[").isPrefixOf (0x3C :: c :: l' ++ rest) = false := by
    have : (0x21 == c) = false := by simpa using Ne.symm hc.1
    simp [ascii, List.isPrefixOf, this]
  have h3 : ((0x3C :: c :: l' ++ rest).drop 1).head? = some c := rfl
  unfold parseOpen
  rw [h1, h2, h3, hwindow, hread]
  simp only [Bool.false_eq_true, if_false, hdrop, hname, Bool.and_false, Builder.apply]
  simp only [beq_iff_eq, Option.some.injEq, hc.1, hc.2, Bool.or_eq_true, or_self, if_false]
  split <;> rfl

/-- The parser passes text without '<' and a well-formed tag. -/
theorem parseRest_tag {mode : MarkupMode} {b : Builder} {text l rest : Bytes} {tag : Tag}
    (htext : 0x3C ∉ text) (hl : Reads mode l tag)
    (hname : (tag.name == ascii "script" || tag.name == ascii "style") = false) :
    parseRest mode b [] (text ++ (l ++ rest)) =
      parseRest mode ((b.text text).apply mode tag) [] rest := by
  obtain ⟨l', rfl⟩ : ∃ l', l = 0x3C :: l' := by
    have h1 := hl.starts.1
    cases l with
    | nil => cases h1
    | cons a l' => exact ⟨l', by rw [Option.some.inj h1]⟩
  have hf : findByte 0x3C (text ++ (0x3C :: l' ++ rest)) = some (text, 0x3C :: l' ++ rest) :=
    findByte_append htext
  have hfuel : ∃ n, (text ++ (0x3C :: l' ++ rest)).length = n + 1 ∧ rest.length ≤ n :=
    ⟨text.length + l'.length + rest.length, by simp; omega, by omega⟩
  obtain ⟨n, hn, hle⟩ := hfuel
  rw [parseRest, hn, parseLoop, hf]
  simp only [List.nil_append, parseOpen_reads hl hname]
  exact parseLoop_fuel hle

/-- At the end of the text. -/
theorem parseRest_nil (mode : MarkupMode) (b : Builder) : parseRest mode b [] [] = b := rfl

/-- One more attribute with a quoted value. -/
theorem readAttrs_quoted {mode : MarkupMode} {n : Nat} {tag : Tag} {name value rest : Bytes}
    (hname : ∀ r, attrName (name ++ 0x3D :: r) = (name, 0x3D :: r))
    (hfirst : ∃ c name', name = c :: name' ∧ isSpace c = false ∧ c ≠ 0x3E ∧ c ≠ 0x2F)
    (hq : 0x22 ∉ value) (ha : 0x26 ∉ value) (hopen : tag.closing = false) :
    readAttrs mode (n + 1) tag (0x20 :: (name ++ 0x3D :: 0x22 :: (value ++ 0x22 :: rest))) =
      readAttrs mode n { tag with attrs := tag.attrs ++ [(fold mode name, value)] } rest := by
  obtain ⟨c, name', rfl, hc1, hc2, hc3⟩ := hfirst
  have hdrop : (0x20 :: (c :: name' ++ 0x3D :: 0x22 :: (value ++ 0x22 :: rest))).dropWhile isSpace =
      c :: name' ++ 0x3D :: 0x22 :: (value ++ 0x22 :: rest) := by
    have h20 : isSpace 0x20 = true := by decide
    rw [List.dropWhile_cons_of_pos h20, List.cons_append,
      List.dropWhile_cons_of_neg (by simp [hc1])]
  have hself : atSelfClose (c :: name' ++ 0x3D :: 0x22 :: (value ++ 0x22 :: rest)) = false := by
    have hne : (c == 0x2F) = false := by simpa using hc3
    simp only [List.cons_append]
    unfold atSelfClose
    split
    · rename_i heq
      simp only [List.cons.injEq] at heq
      rw [← heq.1, hne]; rfl
    · rfl
  have hvalue : attrValue (0x3D :: 0x22 :: (value ++ 0x22 :: rest)) = some (value, rest) := by
    have h3d : isSpace 0x3D = false := by decide
    have h22 : isSpace 0x22 = false := by decide
    simp only [attrValue, List.dropWhile_cons, h3d, h22, Bool.false_eq_true, if_false]
    rw [findByte_append hq]
    simp [decodeEntities_eq ha]
  simp only [List.cons_append] at hdrop hself hname ⊢
  simp only [readAttrs, hdrop]
  rw [if_neg (by simpa using hc2), hself]
  simp only [Bool.false_eq_true, if_false, hname, hvalue, hopen]

/-! ## Open tags with quoted attributes -/

/-- A lower-case name. -/
structure PlainName (name : Bytes) : Prop where
  ne_nil : name ≠ []
  alpha : ∀ b ∈ name, isAlpha b = true
  lower : name.map toLower = name

/-- A lower-case name and a value without quotes and references. -/
structure PlainAttr (attr : Bytes × Bytes) : Prop where
  name : PlainName attr.1
  unquoted : 0x22 ∉ attr.2
  verbatim : 0x26 ∉ attr.2

def quotedAttr (attr : Bytes × Bytes) : Bytes :=
  0x20 :: (attr.1 ++ 0x3D :: 0x22 :: (attr.2 ++ [0x22]))

theorem isAlpha_attr {c : UInt8} (h : isAlpha c = true) :
    isSpace c = false ∧ c ≠ 0x3D ∧ c ≠ 0x3E ∧ c ≠ 0x2F ∧ isNameChar c = true := by
  have hall : ∀ n : Fin 256, isAlpha (UInt8.ofFin n) = true → isSpace (UInt8.ofFin n) = false ∧
      UInt8.ofFin n ≠ 0x3D ∧ UInt8.ofFin n ≠ 0x3E ∧ UInt8.ofFin n ≠ 0x2F ∧
      isNameChar (UInt8.ofFin n) = true := by
    decide +kernel
  exact hall c.toFin h

theorem attrName_alpha : ∀ {name : Bytes}, (∀ b ∈ name, isAlpha b = true) → ∀ rest : Bytes,
    attrName (name ++ 0x3D :: rest) = (name, 0x3D :: rest) := by
  intro name
  induction name with
  | nil => intro _ rest; rfl
  | cons c name ih =>
    intro h rest
    obtain ⟨hspace, heq, hgt, hslash, -⟩ := isAlpha_attr (h c List.mem_cons_self)
    have hself : atSelfClose (c :: (name ++ 0x3D :: rest)) = false := by
      unfold atSelfClose
      split
      · rename_i he
        rw [← (List.cons.inj he).1, beq_eq_false_iff_ne.2 hslash]
        rfl
      · rfl
    rw [List.cons_append, attrName, hspace, beq_eq_false_iff_ne.2 heq,
      beq_eq_false_iff_ne.2 hgt, hself, ih fun b hb => h b (List.mem_cons_of_mem c hb)]
    rfl

theorem readAttrs_attrs : ∀ {attrs : List (Bytes × Bytes)}, (∀ attr ∈ attrs, PlainAttr attr) →
    ∀ (n : Nat) (tag : Tag) (rest : Bytes), tag.closing = false →
    readAttrs .html (n + attrs.length + 1) tag (attrs.flatMap quotedAttr ++ 0x3E :: rest) =
      some ({ tag with attrs := tag.attrs ++ attrs }, rest) := by
  intro attrs
  induction attrs with
  | nil => intro _ n tag rest _; simp [readAttrs, isSpace]
  | cons attr attrs ih =>
    intro h n tag rest hopen
    obtain ⟨hname, hquote, hamp⟩ := h attr List.mem_cons_self
    have hfirst : ∃ c name, attr.1 = c :: name ∧ isSpace c = false ∧ c ≠ 0x3E ∧ c ≠ 0x2F := by
      obtain ⟨c, name, he⟩ := List.exists_cons_of_ne_nil hname.ne_nil
      obtain ⟨h1, -, h2, h3, -⟩ :=
        isAlpha_attr (hname.alpha c (by rw [he]; exact List.mem_cons_self))
      exact ⟨c, name, he, h1, h2, h3⟩
    have hform : (attr :: attrs).flatMap quotedAttr ++ 0x3E :: rest =
      0x20 :: (attr.1 ++ 0x3D :: 0x22 ::
        (attr.2 ++ 0x22 :: (attrs.flatMap quotedAttr ++ 0x3E :: rest))) := by
      simp [quotedAttr]
    have hrest := ih (fun a ha => h a (List.mem_cons_of_mem attr ha)) n
      { tag with attrs := tag.attrs ++ [(fold .html attr.1, attr.2)] } rest hopen
    rw [hform, List.length_cons, ← Nat.add_assoc,
      readAttrs_quoted (attrName_alpha hname.alpha) hfirst hquote hamp hopen, hrest]
    simp [fold, hname.lower]

/-- An open tag as it is written. -/
def openTagBytes (name : Bytes) (attrs : List (Bytes × Bytes)) : Bytes :=
  0x3C :: (name ++ (attrs.flatMap quotedAttr ++ [0x3E]))

theorem reads_openTagBytes {name : Bytes} {attrs : List (Bytes × Bytes)} (hname : PlainName name)
    (hattrs : ∀ attr ∈ attrs, PlainAttr attr)
    (hlen : (openTagBytes name attrs).length ≤ kMaxTagBytes) :
    Reads .html (openTagBytes name attrs) ⟨name, false, false, attrs⟩ := by
  obtain ⟨c, more, he⟩ := List.exists_cons_of_ne_nil hname.ne_nil
  have hc : isAlpha c = true := hname.alpha c (by rw [he]; exact List.mem_cons_self)
  have hstart : c ≠ 0x21 ∧ c ≠ 0x3F ∧ c ≠ 0x2F := by
    refine ⟨?_, ?_, ?_⟩
    all_goals
      rintro rfl
      cases hc
  refine ⟨⟨rfl, ?_⟩, ⟨?_, hlen⟩, fun rest => ?_⟩
  · simp [openTagBytes, he, hstart.1, hstart.2.1]
  · simp [openTagBytes, he]
  · have hform : openTagBytes name attrs ++ rest =
      0x3C :: (name ++ (attrs.flatMap quotedAttr ++ 0x3E :: rest)) := by
      simp [openTagBytes]
    have hall : ∀ b ∈ name, isNameChar b = true :=
      fun b hb => (isAlpha_attr (hname.alpha b hb)).2.2.2.2
    have hstop : (attrs.flatMap quotedAttr ++ 0x3E :: rest).takeWhile isNameChar = [] ∧
        (attrs.flatMap quotedAttr ++ 0x3E :: rest).dropWhile isNameChar =
          attrs.flatMap quotedAttr ++ 0x3E :: rest := by
      cases attrs with
      | nil => exact ⟨rfl, rfl⟩
      | cons attr attrs => exact ⟨rfl, rfl⟩
    have htake : (name ++ (attrs.flatMap quotedAttr ++ 0x3E :: rest)).takeWhile isNameChar =
      name := by
      rw [List.takeWhile_append_of_pos hall, hstop.1, List.append_nil]
    have hdrop : (name ++ (attrs.flatMap quotedAttr ++ 0x3E :: rest)).dropWhile isNameChar =
        attrs.flatMap quotedAttr ++ 0x3E :: rest := by
      rw [List.dropWhile_append_of_pos hall, hstop.2]
    have hfuel : ∃ n, (openTagBytes name attrs ++ rest).length = n + attrs.length + 1 := by
      refine ⟨(openTagBytes name attrs ++ rest).length - attrs.length - 1, ?_⟩
      have hle : attrs.length ≤ (attrs.flatMap quotedAttr).length := by
        rw [List.length_flatMap]
        refine (List.length_le_sum_of_one_le (attrs.map fun a => (quotedAttr a).length) ?_).trans'
          (by simp)
        intro m hm
        obtain ⟨a, -, rfl⟩ := List.mem_map.1 hm
        simp [quotedAttr]
      rw [hform]
      simp only [List.length_cons, List.length_append]
      omega
    obtain ⟨n, hn⟩ := hfuel
    have hslash : ((name ++ (attrs.flatMap quotedAttr ++ 0x3E :: rest)).head? == some 0x2F) =
      false := by
      rw [he]
      simp [hstart.2.2]
    unfold readTag
    rw [hn, hform]
    simp only [List.drop_succ_cons, List.drop_zero, hslash, Bool.false_eq_true, if_false,
      htake, hdrop]
    rw [he]
    simp only [hc, Bool.not_true, Bool.false_eq_true, if_false]
    rw [← he, show fold .html name = name from hname.lower]
    exact readAttrs_attrs hattrs n ⟨name, false, false, []⟩ rest rfl

/-! ## Height -/

mutual
/-- The levels of a tree. -/
def height : MarkupNode → Nat
  | .text _ => 1
  | .element _ _ children => heightIn children + 1
def heightIn : List MarkupNode → Nat
  | [] => 0
  | child :: rest => max (height child) (heightIn rest)
end

theorem height_le_heightIn {node : MarkupNode} : ∀ {l : List MarkupNode}, node ∈ l →
    height node ≤ heightIn l
  | child :: rest, h => by
    rw [heightIn]
    rcases List.mem_cons.1 h with rfl | h
    · exact Nat.le_max_left _ _
    · exact Nat.le_trans (height_le_heightIn h) (Nat.le_max_right _ _)

theorem heightIn_le {m : Nat} :
    ∀ {l : List MarkupNode}, (∀ node ∈ l, height node ≤ m) → heightIn l ≤ m
  | [], _ => Nat.zero_le m
  | child :: _, h => Nat.max_le.2 ⟨h child List.mem_cons_self,
      heightIn_le fun node hnode => h node (List.mem_cons_of_mem _ hnode)⟩

theorem height_children (node : MarkupNode) : heightIn node.children + 1 = height node := by
  cases node with
  | text t => rfl
  | element tag attrs children => rfl

theorem height_child {node child : MarkupNode} (h : child ∈ node.children) :
    height child < height node := by
  have := height_le_heightIn h
  have := height_children node
  omega

end VlmConvert.L1

import VlmConvert.L1Text.MarkdownInline
import VlmConvert.L3Document.ChandraThread

/-!
# Texts with inline HTML

What the dots.ocr and Nemotron Parse mappers share: the marks of a heading
(`src/mapping/layout.cpp:281-301`), `has_inline_html_tag`
(`src/mapping/markdown_inline.cpp:406-438`), `add_inline_text`
(`src/mapping/chandra.cpp:790-805`) and the items both fill with it.

A fragment is walked by a builder of its own; a builder leaves `skip_img_` and
`skip_chem_` as it found them, so the state they are in is the thread's.

Result: `sound_addInlineText` and its kin, what is filled in is `Sound`, and
`headingItem` makes a header of a level from 1 to 6.
-/
namespace VlmConvert.L3.Chandra

open Bytes L1 L2 Doclang Interruptible

/-! ## Texts -/

/-- The text of an ATX heading and its level; a text without the marks is at
level 0.
mirrors src/mapping/layout.cpp:281-301 -/
def stripMarkdownHeading (text : Bytes) : Bytes × Nat :=
  let hashes := (text.takeWhile (· == 0x23)).length
  let rest := text.dropWhile (· == 0x23)
  let blank := fun c : UInt8 => c == 0x20 || c == 0x09
  if hashes = 0 ∨ 6 < hashes ∨ !rest.head?.any blank then (text, 0)
  else ((rest.dropWhile blank).rdropWhile isSpace, hashes)

/-- mirrors src/mapping/markdown_inline.cpp:407-410 -/
def kInlineTags : List Bytes :=
  ["a", "b", "br", "code", "del", "div", "em", "i", "p", "s", "span", "strong", "sub", "sup",
    "table", "tbody", "td", "tfoot", "th", "thead", "tr", "u"].map ascii

/-- Whether an inline tag is named behind a `<`.
mirrors src/mapping/markdown_inline.cpp:412-435 -/
def namesInlineTag (behind : Bytes) : Bool :=
  let inner := if behind.head? == some 0x2F then behind.drop 1 else behind
  (inner.dropWhile isAlpha).head?.any (fun follow => isSpace follow || follow == 0x2F ||
    follow == 0x3E) &&
    kInlineTags.contains ((inner.takeWhile isAlpha).map toLower)

/-- mirrors src/mapping/markdown_inline.cpp:406-438 -/
def hasInlineHtmlTag : Bytes → Bool
  | [] => false
  | c :: rest => (c == 0x3C && namesInlineTag rest) || hasInlineHtmlTag rest

/-! ## Items -/

section Items
variable (env : Env)

/-- An edit of an item. -/
def editItem (item : Option BodyChild) (edit : BodyChild → LayoutWriter.Op) : Builder Unit :=
  match item with
  | none => pure ()
  | some ref => do
    let _ ← op env (edit ref)
    pure ()

/-- Whether a text was walked as HTML: under its parent, or under a text item
it gets for itself.
mirrors src/mapping/chandra.cpp:790-805 -/
def addInlineText (text : Bytes) (label : DocItemLabel) (box : Option BoundingBox)
    (parent : Option BodyChild) : Builder Bool :=
  let html := markdownInlineHtml text
  if !hasInlineHtmlTag html then pure false
  else if parent.isSome then addHtmlFragment env html label box parent
  else do
    let item ← op env (.styledText label box [] none [] none)
    editItem env item (.setOrig · text)
    addHtmlFragment env html .text none item

/-- The text of an item that holds no inline HTML. -/
def fillPlain (filled : Bool) (item : Option BodyChild) (text : Bytes) : Builder Unit :=
  if filled then pure () else editItem env item (.setText · (unescapeMarkdownLiterals text) none [])

/-- mirrors src/mapping/dots.cpp:130-134, src/mapping/nemotron.cpp:972-974 -/
def fillInline (item : Option BodyChild) (text : Bytes) : Builder Unit := do
  let filled ← addInlineText env text .text none item
  fillPlain env filled item text

/-- A title or a header at the level of its marks, 2 without any.
mirrors src/mapping/dots.cpp:201-206, src/mapping/nemotron.cpp:994-1002 -/
def headingItem (isTitle : Bool) (box : Option BoundingBox) (body : Bytes) : Builder Unit := do
  let clean := stripMarkdownHeading body
  let item ← op env (if isTitle then .title box [] none
    else .heading (if 0 < clean.2 then clean.2 else 2) box [] none)
  editItem env item (.setOrig · body)
  fillInline env item clean.1

/-- The list that is open, or a new one.
mirrors src/mapping/dots.cpp:208-210, src/mapping/nemotron.cpp:897-899, 963-965 -/
def openList (list : Option BodyChild) : Builder (Option BodyChild) :=
  if list.isSome then pure list else op env (.listGroup none)

/-- mirrors src/mapping/dots.cpp:211-213, src/mapping/nemotron.cpp:966-974 -/
def inlineListItem (box : Option BoundingBox) (body itemBody : Bytes) (ordered : Bool)
    (marker : Bytes)
    (list : Option BodyChild) : Builder Unit := do
  let item ← op env (.listItem box [] ordered marker list)
  editItem env item (.setOrig · body)
  fillInline env item itemBody

/-- The item of a text that holds no inline HTML. -/
def plainItem (made : Bool) (text : Bytes) (label : DocItemLabel) (box : Option BoundingBox)
    (parent : Option BodyChild) : Builder Unit :=
  if made then pure ()
  else do
    let item ← op env (.styledText label box (unescapeMarkdownLiterals text) none [] parent)
    editItem env item (.setOrig · text)

/-- mirrors src/mapping/dots.cpp:222-226, src/mapping/nemotron.cpp:743-747 -/
def inlineItem (text : Bytes) (label : DocItemLabel) (box : Option BoundingBox)
    (parent : Option BodyChild) : Builder Unit := do
  let made ← addInlineText env text label box parent
  plainItem env made text label box parent

/-- An empty table where none was made. -/
def emptyTable (made : Option BodyChild) (box : Option BoundingBox) (parent : Option BodyChild) :
    Builder Unit :=
  if made.isSome then pure ()
  else do
    let _ ← op env (.table box [] parent)
    pure ()

/-- The table of an HTML text, if there is a text.
mirrors src/mapping/dots.cpp:195-197, src/mapping/nemotron.cpp:759-764 -/
def inlineTable (html : Option Bytes) (box : Option BoundingBox) (parent : Option BodyChild) :
    Builder Unit :=
  match html with
  | none => emptyTable env none box parent
  | some html => do
    let made ← addHtmlTable env html box parent
    emptyTable env made box parent

/-- The pass behind the blocks; it reads nothing out of range
(`linkAdjacentCaptions_links`). -/
def linkedBlocks (starts captionBlocks : List Nat) (codeOwners : Bool) (out : ChandraWriter) :
    ChandraWriter :=
  { out with
    writer := (LayoutWriter.linkAdjacentCaptions starts codeOwners out.writer captionBlocks).getD
      out.writer }

def finishAs (formatName : Bytes) :
    Builder (Except Bytes (Document × Option (List PageWarning))) := do
  let s ← state
  pure (LayoutWriter.finish env.page env.raster s.out.writer formatName true)

end Items

/-! ## What the items keep -/

/-- A level is the number of its marks, 6 at most. -/
theorem stripMarkdownHeading_level (text : Bytes) : (stripMarkdownHeading text).2 ≤ 6 := by
  unfold stripMarkdownHeading
  dsimp only
  split
  · exact Nat.zero_le 6
  · rename_i h
    simp only [not_or, Nat.not_lt] at h
    exact h.2.1

section Sound
variable (env : Env)

theorem sound_editItem (item : Option BodyChild) {edit : BodyChild → LayoutWriter.Op}
    (hedit : ∀ ref, (edit ref).Leveled) : Sound (editItem env item edit) := by
  cases item with
  | none => exact sound_pure ()
  | some ref => exact (sound_op env (hedit ref)).bind fun _ => sound_pure ()

theorem sound_setOrig (item : Option BodyChild) (text : Bytes) :
    Sound (editItem env item (.setOrig · text)) :=
  sound_editItem env item fun _ => trivial

theorem sound_addInlineText (text : Bytes) (label : DocItemLabel) (box : Option BoundingBox)
    (parent : Option BodyChild) : Sound (addInlineText env text label box parent) := by
  unfold addInlineText
  refine .ite (sound_pure _) (.ite (sound_addHtmlFragment env _ _ _ _) ?_)
  refine Sound.bind (sound_op env trivial) fun item => ?_
  exact (sound_setOrig env item text).bind fun _ => sound_addHtmlFragment env _ _ _ _

theorem sound_fillInline (item : Option BodyChild) (text : Bytes) :
    Sound (fillInline env item text) := by
  unfold fillInline fillPlain
  refine (sound_addInlineText env _ _ _ _).bind fun filled => ?_
  refine .ite (sound_pure ()) (sound_editItem env item ?_)
  exact fun _ => trivial

theorem sound_headingItem (isTitle : Bool) (box : Option BoundingBox) (body : Bytes) :
    Sound (headingItem env isTitle box body) := by
  have hmarks := stripMarkdownHeading_level body
  have hlevel : ValidLevel
    (if 0 < (stripMarkdownHeading body).2 then (stripMarkdownHeading body).2 else 2) := by
    unfold ValidLevel
    split
    · omega
    · omega
  unfold headingItem
  refine Sound.bind (sound_op env ?_) fun item => ?_
  · split
    · trivial
    · exact hlevel
  · exact (sound_setOrig env item body).bind fun _ => sound_fillInline env item _

theorem sound_openList (list : Option BodyChild) : Sound (openList env list) := by
  unfold openList
  exact .ite (sound_pure _) (sound_op env trivial)

theorem sound_inlineListItem (box : Option BoundingBox) (body itemBody : Bytes) (ordered : Bool)
    (marker : Bytes) (list : Option BodyChild) :
    Sound (inlineListItem env box body itemBody ordered marker list) := by
  unfold inlineListItem
  refine Sound.bind (sound_op env trivial) fun item => ?_
  exact (sound_setOrig env item body).bind fun _ => sound_fillInline env item _

theorem sound_inlineItem (text : Bytes) (label : DocItemLabel) (box : Option BoundingBox)
    (parent : Option BodyChild) : Sound (inlineItem env text label box parent) := by
  unfold inlineItem plainItem
  refine (sound_addInlineText env _ _ _ _).bind fun made => .ite (sound_pure ()) ?_
  exact Sound.bind (sound_op env trivial) fun item => sound_setOrig env item text

theorem sound_emptyTable (made : Option BodyChild) (box : Option BoundingBox)
    (parent : Option BodyChild) :
    Sound (emptyTable env made box parent) := by
  unfold emptyTable
  exact .ite (sound_pure ()) (Sound.bind (sound_op env trivial) fun _ => sound_pure ())

theorem sound_inlineTable (html : Option Bytes) (box : Option BoundingBox)
    (parent : Option BodyChild) :
    Sound (inlineTable env html box parent) := by
  unfold inlineTable
  split
  · exact sound_emptyTable env none box parent
  · exact (sound_addHtmlTable env _ _ _).bind fun made => sound_emptyTable env made box parent

theorem headerLevels_linkAdjacent {w w' : LayoutWriter} {starts : List Nat} {codeOwners : Bool}
    {i : Nat}
    (h : LayoutWriter.linkAdjacent w starts codeOwners i = some w') :
    w'.doc.headerLevels = w.doc.headerLevels := by
  have hlink : ∀ {owner caption : BodyChild}, LayoutWriter.linkOwner w owner caption = some w' →
      w'.doc.headerLevels = w.doc.headerLevels := by
    intro owner caption hlink
    unfold LayoutWriter.linkOwner at hlink
    split at hlink
    · cases hlink
      rfl
    · obtain ⟨b, -, hb⟩ := Option.bind_eq_some_iff.1 hlink
      cases b with
      | true =>
        cases hb
        rfl
      | false =>
        cases hb
        exact LayoutWriter.headerLevels_linkCaption owner caption
  unfold LayoutWriter.linkAdjacent at h
  split at h
  · cases h
    rfl
  · obtain ⟨caption, -, h⟩ := Option.bind_eq_some_iff.1 h
    cases caption with
    | none =>
      cases h
      rfl
    | some caption =>
      obtain ⟨owners, -, h⟩ := Option.bind_eq_some_iff.1 h
      split at h
      · exact hlink h
      · cases h
        rfl

theorem headerLevels_linkAdjacentCaptions {starts : List Nat} {codeOwners : Bool}
    (captionBlocks : List Nat) : ∀ {w w' : LayoutWriter},
    LayoutWriter.linkAdjacentCaptions starts codeOwners w captionBlocks = some w' →
    w'.doc.headerLevels = w.doc.headerLevels := by
  induction captionBlocks with
  | nil =>
    intro w w' h
    cases h
    rfl
  | cons i captionBlocks ih =>
    intro w w' h
    obtain ⟨linked, hlink, hrest⟩ := Option.bind_eq_some_iff.1 h
    rw [ih hrest, headerLevels_linkAdjacent hlink]

theorem sound_linkedBlocks (starts captionBlocks : List Nat) (codeOwners : Bool) :
    Sound (edit (linkedBlocks starts captionBlocks codeOwners)) := by
  refine sound_point.bind fun _ => sound_write fun out h => ?_
  unfold linkedBlocks
  cases hlinked : LayoutWriter.linkAdjacentCaptions starts codeOwners out.writer captionBlocks with
  | none => exact h
  | some linked => exact leveled_congr h (headerLevels_linkAdjacentCaptions captionBlocks hlinked)

theorem sound_finishAs (formatName : Bytes) : Sound (finishAs env formatName) :=
  sound_state.bind fun _ => sound_pure _

end Sound

end VlmConvert.L3.Chandra

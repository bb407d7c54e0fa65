import VlmConvert.L3Document.DotsPage
import VlmConvert.L3Document.NemotronText

/-!
# Nemotron Parse pages

`map_nemotron_parse_v2` and `map_nemotron_parse_v3_5` of
`src/mapping/nemotron.cpp`. Version 2 writes the regions of
`nemotron_v2_regions`, with their boxes taken off a padded canvas; version 3.5
writes each block once, with its inline HTML, and links captions behind the
last block.

Results: `blocksFrom_enough`, `sound_mapNemotronParseV2` and
`sound_mapNemotronParseV35`.
-/
namespace VlmConvert.L3.Nemotron

open Bytes L1 L2 Doclang Chandra Interruptible

section Read
variable (env : Chandra.Env)

/-- `std::from_chars` on the digits of a coordinate. -/
def number (digits : Bytes) : Option Float := (env.fromChars digits).map Prod.fst

/-! ## Version 2 -/

/-- `std::min` and `std::trunc` of doubles. -/
def minFloat (a b : Float) : Float := if b < a then b else a

def trunc (x : Float) : Float := if x < 0 then x.ceil else x.floor

/-- The image on the canvas, and the padding to its left and above.
mirrors src/mapping/nemotron.cpp:504-520 -/
def canvasImage (page : PageContext) : (Float × Float) × (Float × Float) :=
  let canvasW : Float := 1664
  let canvasH : Float := 2048
  let imageW := page.width.toFloat
  let imageH := page.height.toFloat
  let aspect := if 0 < imageH then imageW / imageH else 1
  let (w, h) := if canvasH < imageH then (trunc (canvasH * aspect), canvasH) else (imageW, imageH)
  let (w, h) := if canvasW < w then (canvasW, trunc (canvasW / aspect)) else (w, h)
  ((w, h), (Dots.maxFloat 0 (canvasW - w) / 2).floor, (Dots.maxFloat 0 (canvasH - h) / 2).floor)

/-- mirrors src/mapping/nemotron.cpp:503-531 -/
def nemotronV2Box (region : Region Float) (page : PageContext) : BoundingBox :=
  let width := page.width.toFloat
  let height := page.height.toFloat
  let ((w, h), (left, top)) := canvasImage page
  let sx := if 0 < w then width / w else 1
  let sy := if 0 < h then height / h else 1
  let clamp := fun v hi => Dots.maxFloat 0 (minFloat hi v)
  ⟨clamp ((region.x1 * 1664 - left) * sx) width, clamp ((region.y1 * 2048 - top) * sy) height,
    clamp ((region.x2 * 1664 - left) * sx) width, clamp ((region.y2 * 2048 - top) * sy) height⟩

/-- Rows behind the last one with a text are dropped.
mirrors src/mapping/nemotron.cpp:536-564 -/
def nemotronV2TableCells (latex : Bytes) : List SpanCell :=
  match (Latex.latexTabularToHtml latex).bind fun html =>
    findElement (ascii "table") (parseMarkup .html html) with
  | none => []
  | some node =>
    let cells := (tableSources node).map fun source => { source.1 with
      text := markdownToText (collapseWhitespace (htmlText source.2))
      columnHeader := source.1.row == 0
      rowHeader := false }
    let filled := cells.filter fun cell => !(trim cell.text).isEmpty
    let lastRow := filled.foldl (fun last cell => max last (cell.row + cell.rowSpan - 1)) 0
    if filled.isEmpty then [] else cells.filter fun cell => cell.row ≤ lastRow

/-- mirrors src/mapping/nemotron.cpp:566-578 -/
def nemotronTextLabel (label : Bytes) : DocItemLabel :=
  ([(ascii "Text", DocItemLabel.text), (ascii "Caption", .caption), (ascii "Footnote", .footnote),
    (ascii "Page-header", .pageHeader), (ascii "Page-footer", .pageFooter),
    (ascii "Bibliography", .reference), (ascii "Formula", .formula)].lookup label).getD .text

/-- The lines of the first table in a text.
mirrors src/mapping/nemotron.cpp:909-917 -/
def firstTable (raw : Bytes) : List Bytes :=
  let piped := fun line : Bytes => line.head? == some 0x7C
  (((linesOf raw).map trim).dropWhile fun line => !piped line).takeWhile piped

/-- The result of the stripping loop, which ends (`stripMathDelimiters_ends`). -/
def mathText (text : Bytes) : Bytes :=
  (MathDelimiters.stripMathDelimiters (text.length + 1) text).getD text

/-- mirrors src/mapping/layout.cpp:821-846 -/
def setTabularChart (picture : Option BodyChild) (title : Bytes) (rows : List (List Bytes))
    (out : ChandraWriter) : ChandraWriter :=
  match picture with
  | none => out
  | some ref => { out with writer := LayoutWriter.setTabularChart out.writer ref title rows [] }

/-- The item of a text region outside a list.
mirrors src/mapping/nemotron.cpp:920-928 -/
def v2TextOp (label raw : Bytes) (box : BoundingBox) : LayoutWriter.Op :=
  if label == ascii "Title" then .title (some box) (markdownToText raw) none
  else if label == ascii "Section-header" then
    .heading (markdownHeadingLevel raw 2) (some box) (markdownToText raw) none
  else if nemotronTextLabel label == .formula then .formula (some box) (mathText raw) none
  else .styledText (nemotronTextLabel label) (some box) (markdownToText raw) none [] none

/-- A region outside a list.
mirrors src/mapping/nemotron.cpp:901-930 -/
def emitV2Other (label raw : Bytes) (box : BoundingBox) : Builder Unit :=
  if label == ascii "Picture" then do
    let _ ← op env (.picture (some box) none)
    pure ()
  else if label == ascii "Table" then do
    let _ ← op env (.table (some box) (nemotronV2TableCells raw) none)
    pure ()
  else if label == ascii "Chart" then do
    let picture ← op env (.picture (some box) none)
    edit (setTabularChart picture [] (markdownTableRows (firstTable raw)))
  else do
    let item ← op env (v2TextOp label raw box)
    editItem env item (.setOrig · raw)

/-- The list that is open behind a region.
mirrors src/mapping/nemotron.cpp:889-931 -/
def emitV2 (list : Option BodyChild) (region : Region Float) : Builder (Option BodyChild) :=
  let box := nemotronV2Box region env.page
  let raw := trim (removeArtifacts region.text)
  if region.label == ascii "List-item" then do
    let list ← openList env list
    let item ← op env (.listItem (some box) (markdownToText raw) false [] list)
    editItem env item (.setOrig · raw)
    pure list
  else do
    emitV2Other env region.label raw box
    pure none

/-- mirrors src/mapping/nemotron.cpp:884-933 -/
def mapNemotronParseV2 (text : Bytes) :
    Builder (Except Bytes (Document × Option (List PageWarning))) := do
  let _ ← (nemotronV2Regions (number env) text).foldlM (emitV2 env) none
  finishAs env (ascii "Nemotron Parse")

/-! ## Version 3.5 -/

/-- The coordinate pairs of a segment, each with the text before it.
mirrors src/mapping/nemotron.cpp:621-637 -/
def coordPieces : Nat → Bytes → Bytes → List (Bytes × Float × Float)
  | 0, _, _ => []
  | _ + 1, _, [] => []
  | n + 1, before, b :: segment =>
    match coordToken (number env) (b :: segment) (0, 0) with
    | (none, _) => coordPieces n (before ++ [b]) segment
    | (some behind, xy) => (before, xy) :: coordPieces n [] behind

/-- The block a segment and its class make: two pairs of coordinates at least.
mirrors src/mapping/nemotron.cpp:638-650 -/
def blockOf (label segment : Bytes) : Option (Region Float) :=
  match coordPieces env segment.length [] segment with
  | first :: second :: more =>
    let last := (second :: more).getLastD second
    some {
      x1 := first.2.1, y1 := first.2.2, x2 := last.2.1, y2 := last.2.2
      text := trim (removeArtifacts ((second :: more).flatMap Prod.fst))
      label := label }
  | _ => none

/-- The segments up to each class, and their blocks.
mirrors src/mapping/nemotron.cpp:612-655 -/
def blocksFrom : Nat → Bytes → Bytes → List (Region Float)
  | 0, _, _ => []
  | _ + 1, _, [] => []
  | n + 1, segment, b :: content =>
    match classToken (b :: content) with
    | none => blocksFrom n (segment ++ [b]) content
    | some (label, behind) => (blockOf env label segment).toList ++ blocksFrom n [] behind

/-- Each block once.
mirrors src/mapping/nemotron.cpp:608-656 -/
def nemotronV35Blocks (content : Bytes) : List (Region Float) :=
  (blocksFrom env content.length [] content).eraseDups

/-- Items made since, to the furniture.
mirrors src/mapping/nemotron.cpp:748-757 -/
def furnish (label : DocItemLabel) (before : Document) : Builder Unit :=
  if label == .pageHeader || label == .pageFooter then do
    let s ← state
    let doc := s.out.writer.doc
    let texts := (List.range' before.texts.length (doc.texts.length - before.texts.length)).map
      (BodyChild.mk .text)
    let groups := (List.range' before.groups.length (doc.groups.length - before.groups.length)).map
      (BodyChild.mk .group)
    (texts ++ groups).foldlM
      (fun _ ref => editItem env (some ref) (.setContentLayer · .furniture)) ()
  else pure ()

/-- mirrors src/mapping/nemotron.cpp:739-757 -/
def richText (text : Bytes) (label : DocItemLabel) (box : Option BoundingBox)
    (parent : Option BodyChild) :
    Builder Unit := do
  let before ← state
  inlineItem env text label box parent
  furnish env label before.out.writer.doc

/-- mirrors src/mapping/nemotron.cpp:766-771 -/
def fillChart (picture : Option BodyChild) (chart : ChartPicture) (out : ChandraWriter) :
    ChandraWriter :=
  match picture with
  | none => out
  | some ref =>
    let classified := LayoutWriter.classifyPicture out.writer ref (chartLabel chart.type) []
    { out with
      writer := LayoutWriter.setTabularChart classified ref chart.title
        (markdownTableRows chart.rows) [] }

/-- mirrors src/mapping/nemotron.cpp:773-875 -/
def chart (text : Bytes) (box : Option BoundingBox) : Builder Unit :=
  (chartPictures text).foldlM (fun _ chart => do
    let picture ← op env (.picture box none)
    edit (fillChart picture chart)) ()

/-- mirrors src/mapping/nemotron.cpp:988-992 -/
def describedPicture (text : Bytes) (box : Option BoundingBox) : Builder Unit := do
  let picture ← op env (.picture box none)
  if text.isEmpty then pure () else richText env text .text none picture

/-- mirrors src/mapping/nemotron.cpp:948-954 -/
def blockBox (block : Region Float) (page : PageContext) : BoundingBox :=
  let unit := fun v => minFloat 1 (Dots.maxFloat 0 v)
  LayoutWriter.scaledBox page (minFloat (unit block.x1) (unit block.x2))
    (minFloat (unit block.y1) (unit block.y2))
    (Dots.maxFloat (unit block.x1) (unit block.x2)) (Dots.maxFloat (unit block.y1) (unit block.y2))
    page.width.toFloat page.height.toFloat

/-- mirrors src/mapping/nemotron.cpp:1013-1023 -/
def v35Label (label : Bytes) : DocItemLabel :=
  ([(ascii "Caption", DocItemLabel.caption), (ascii "Footnote", .footnote),
    (ascii "Bibliography", .reference),
    (ascii "Page-header", .pageHeader), (ascii "Page-footer", .pageFooter)].lookup label).getD .text

/-- A block outside lists and tables of contents.
mirrors src/mapping/nemotron.cpp:984-1023 -/
def emitV35Other (label body : Bytes) (box : Option BoundingBox) : Builder Unit :=
  if label == ascii "Table" then inlineTable env (Latex.latexTabularToHtml body) box none
  else if label == ascii "Chart" then chart env body box
  else if label == ascii "Picture" then describedPicture env body box
  else if label == ascii "Title" || label == ascii "Section-header" then
    headingItem env (label == ascii "Title") box body
  else if label == ascii "Formula" then do
    let item ← op env (.formula box (mathText body) none)
    editItem env item (.setOrig · body)
  else if label == ascii "Code" then do
    let _ ← op env (.code box body [] none)
    pure ()
  else richText env body (v35Label label) box none

/-- A line of a table of contents.
mirrors src/mapping/nemotron.cpp:975-983 -/
def emitTocLine (body : Bytes) (box : Option BoundingBox) (toc : Option BodyChild) : Builder Unit :=
  if (findSub (ascii "\\begin\x7btabular\x7d") body).isSome then
    inlineTable env (Latex.latexTabularToHtml body) box toc
  else richText env body .text box toc

def openToc (toc : Option BodyChild) : Builder (Option BodyChild) :=
  if toc.isSome then pure toc else op env (.group (ascii "toc") .unspecified none)

/-- mirrors src/mapping/nemotron.cpp:940-943 -/
structure Loop where
  list : Option BodyChild := none
  toc : Option BodyChild := none
  starts : List Nat := []
  captionBlocks : List Nat := []

/-- mirrors src/mapping/nemotron.cpp:948-1023 -/
def Loop.emit (loop : Loop) (block : Region Float) : Builder Loop :=
  let box := some (blockBox block env.page)
  if block.label == ascii "List-item" then do
    let list ← openList env loop.list
    let marker := listMarker block.text
    inlineListItem env box block.text ((marker.map (·.2.2)).getD block.text)
      (marker.any (·.2.1)) ((marker.map Prod.fst).getD []) list
    pure { loop with list := list, toc := none }
  else if block.label == ascii "TOC" then do
    let toc ← openToc env loop.toc
    emitTocLine env block.text box toc
    pure { loop with list := none, toc := toc }
  else do
    emitV35Other env block.label block.text box
    pure { loop with list := none, toc := none }

/-- mirrors src/mapping/nemotron.cpp:945-1024 -/
def Loop.step (loop : Loop) (block : Region Float) : Builder Loop := do
  let s ← state
  let entered := { loop with
    starts := loop.starts ++ [s.out.writer.body.length]
    captionBlocks :=
      if block.label == ascii "Caption" then loop.captionBlocks ++ [loop.starts.length]
      else loop.captionBlocks }
  entered.emit env block

/-- mirrors src/mapping/nemotron.cpp:935-1027 -/
def mapNemotronParseV35 (text : Bytes) :
    Builder (Except Bytes (Document × Option (List PageWarning))) := do
  let loop ← (nemotronV35Blocks env text).foldlM (Loop.step env) {}
  edit (linkedBlocks loop.starts loop.captionBlocks false)
  finishAs env (ascii "Nemotron Parse 3.5")

/-! ## The fuel -/

theorem coordToken_behind {text behind : Bytes} {xy xy' : Float × Float}
    (h : coordToken (number env) text xy = (some behind, xy')) : behind.length < text.length := by
  rw [coordToken_eq, Prod.mk.injEq] at h
  obtain ⟨pair, token, ⟨-, -, rfl⟩, rfl⟩ := pair_readCoord h.1
  simp [ascii]
  omega

/-- As many turns as a segment has bytes find all its coordinates. -/
theorem coordPieces_enough {n m : Nat} {segment : Bytes} (before : Bytes) (hn : segment.length ≤ n)
    (hm : n ≤ m) : coordPieces env n before segment = coordPieces env m before segment := by
  induction n generalizing m before segment with
  | zero =>
    obtain rfl := List.length_eq_zero_iff.1 (Nat.le_zero.1 hn)
    cases m with
    | zero => rfl
    | succ m => rfl
  | succ n ih =>
    obtain ⟨m, rfl⟩ : ∃ k, m = k + 1 := ⟨m - 1, by omega⟩
    cases segment with
    | nil => rfl
    | cons b segment =>
      rw [List.length_cons] at hn
      rw [coordPieces, coordPieces]
      cases htoken : coordToken (number env) (b :: segment) (0, 0) with
      | mk behind xy =>
        cases behind with
        | none => exact ih _ (by omega) (by omega)
        | some behind =>
          have hlt := coordToken_behind env htoken
          rw [List.length_cons] at hlt
          exact congrArg _ (ih [] (by omega) (by omega))

/-- As many turns as a response has bytes find all its blocks. -/
theorem blocksFrom_enough {n m : Nat} {content : Bytes} (segment : Bytes) (hn : content.length ≤ n)
    (hm : n ≤ m) : blocksFrom env n segment content = blocksFrom env m segment content := by
  induction n generalizing m segment content with
  | zero =>
    obtain rfl := List.length_eq_zero_iff.1 (Nat.le_zero.1 hn)
    cases m with
    | zero => rfl
    | succ m => rfl
  | succ n ih =>
    obtain ⟨m, rfl⟩ : ∃ k, m = k + 1 := ⟨m - 1, by omega⟩
    cases content with
    | nil => rfl
    | cons b content =>
      rw [List.length_cons] at hn
      rw [blocksFrom, blocksFrom]
      cases htoken : classToken (b :: content) with
      | none => exact ih _ (by omega) (by omega)
      | some token =>
        obtain ⟨label, behind⟩ := token
        have hlength : (b :: content).length =
          (ascii "<class_" ++ (label ++ 0x3E :: behind)).length :=
          congrArg List.length ((classToken_iff _ _ _).1 htoken).2.2
        simp only [List.length_cons, List.length_append] at hlength
        exact congrArg _ (ih [] (by omega) (by omega))

/-! ## What the mappers keep -/

theorem sound_setTabularChart (picture : Option BodyChild) (title : Bytes)
    (rows : List (List Bytes)) :
    Sound (edit (setTabularChart picture title rows)) := by
  refine sound_edit fun out => ?_
  unfold setTabularChart
  split
  · rfl
  · exact LayoutWriter.setTabularChart_texts _ _ _ _ _

theorem v2TextOp_leveled (label raw : Bytes) (box : BoundingBox) :
    (v2TextOp label raw box).Leveled := by
  unfold v2TextOp
  split
  · trivial
  · split
    · exact markdownHeadingLevel_valid raw
    · split
      · trivial
      · trivial

theorem sound_emitV2 (list : Option BodyChild) (region : Region Float) :
    Sound (emitV2 env list region) := by
  unfold emitV2 emitV2Other
  refine .ite ?_ (Sound.bind (.ite ?_ (.ite ?_ (.ite ?_ ?_))) fun _ => sound_pure _)
  · refine (sound_openList env list).bind fun list =>
      Sound.bind (sound_op env trivial) fun item => ?_
    exact (sound_setOrig env item _).bind fun _ => sound_pure _
  · exact Sound.bind (sound_op env trivial) fun _ => sound_pure ()
  · exact Sound.bind (sound_op env trivial) fun _ => sound_pure ()
  · exact Sound.bind (sound_op env trivial) fun picture => sound_setTabularChart picture _ _
  · exact (sound_op env (v2TextOp_leveled _ _ _)).bind fun item => sound_setOrig env item _

/-- **A Nemotron Parse 2 page** keeps the flags and the levels. -/
theorem sound_mapNemotronParseV2 (text : Bytes) : Sound (mapNemotronParseV2 env text) := by
  unfold mapNemotronParseV2
  refine (sound_foldlM _ (fun list region _ => sound_emitV2 env list region) _).bind fun _ => ?_
  exact sound_finishAs env _

theorem sound_richText (text : Bytes) (label : DocItemLabel) (box : Option BoundingBox)
    (parent : Option BodyChild) : Sound (richText env text label box parent) := by
  unfold richText furnish
  refine sound_state.bind fun before => (sound_inlineItem env _ _ _ _).bind fun _ =>
    .ite ?_ (sound_pure ())
  refine sound_state.bind fun s => sound_foldlM _ (fun _ ref _ => sound_editItem env _ ?_) ()
  exact fun _ => trivial

theorem sound_chart (text : Bytes) (box : Option BoundingBox) : Sound (chart env text box) := by
  unfold chart
  refine sound_foldlM _ (fun _ chart _ => ?_) ()
  refine Sound.bind (sound_op env trivial) fun picture => sound_edit fun out => ?_
  unfold fillChart
  split
  · rfl
  · exact (LayoutWriter.setTabularChart_texts _ _ _ _ _).trans
      (LayoutWriter.classifyPicture_texts _ _ _ _)

theorem sound_emitV35Other (label body : Bytes) (box : Option BoundingBox) :
    Sound (emitV35Other env label body box) := by
  unfold emitV35Other describedPicture
  refine .ite (sound_inlineTable env _ _ _) (.ite (sound_chart env _ _) (.ite ?_
    (.ite (sound_headingItem env _ _ _) (.ite ?_ (.ite ?_ (sound_richText env _ _ _ _))))))
  · refine Sound.bind (sound_op env trivial) fun picture => ?_
    exact .ite (sound_pure ()) (sound_richText env _ _ _ _)
  · exact Sound.bind (sound_op env trivial) fun item => sound_setOrig env item body
  · exact Sound.bind (sound_op env trivial) fun _ => sound_pure ()

theorem Loop.sound_step (loop : Loop) (block : Region Float) : Sound (loop.step env block) := by
  unfold Loop.step
  refine sound_state.bind fun s => ?_
  unfold Loop.emit
  refine .ite ?_ (.ite ?_ ?_)
  · refine (sound_openList env _).bind fun list => ?_
    exact (sound_inlineListItem env _ _ _ _ _ _).bind fun _ => sound_pure _
  · unfold openToc emitTocLine
    refine Sound.bind (.ite (sound_pure _) (sound_op env trivial)) fun toc => ?_
    exact Sound.bind (.ite (sound_inlineTable env _ _ _) (sound_richText env _ _ _ _)) fun _ =>
      sound_pure _
  · exact (sound_emitV35Other env _ _ _).bind fun _ => sound_pure _

/-- **A Nemotron Parse 3.5 page** keeps the flags and the levels. -/
theorem sound_mapNemotronParseV35 (text : Bytes) : Sound (mapNemotronParseV35 env text) := by
  unfold mapNemotronParseV35
  refine (sound_foldlM _ (fun loop block _ => loop.sound_step env block) _).bind fun loop => ?_
  exact (sound_linkedBlocks _ _ _).bind fun _ => sound_finishAs env _

end Read

end VlmConvert.L3.Nemotron

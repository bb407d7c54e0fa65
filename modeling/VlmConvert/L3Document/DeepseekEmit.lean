import VlmConvert.L3Document.Charspans
import VlmConvert.L3Document.Deepseek

/-!
# DeepSeek-OCR items

The emission loop of `map_deepseek_ocr` (`src/mapping/deepseek.cpp:447-509`).
An owner (`table`, `figure` or `image`) looks ahead for a caption block of its
kind, writes it first and links it; the caption block looks back and leaves
itself out. The two conditions are written apart: the first asks for the label
`caption_of` gives the owner, the second also that the label ends in
`_caption`.

Result: `emitBlocks_items`, the loop creates one item per block, in the order
of the blocks but for captions, which come right before their owners, and
links each caption to its owner and nothing else.
-/
namespace VlmConvert.L3.Deepseek

open Bytes L2 LayoutWriter

/-! ## The loop -/

/-- mirrors src/mapping/deepseek.cpp:389-393 -/
structure GroundedBlock where
  label : Bytes
  content : Bytes
  box : BoundingBox

/-- mirrors src/mapping/deepseek.cpp:447-458 -/
def captionOf (owner : Bytes) : Bytes :=
  if owner = ascii "table" then ascii "table_caption"
  else if owner = ascii "figure" then ascii "figure_caption"
  else if owner = ascii "image" then ascii "image_caption"
  else []

/-- The content without its leading hashes, and their number as an `int`.
mirrors src/mapping/deepseek.cpp:459-466 -/
def stripHashes (content : Bytes) : Bytes × Int :=
  let hashes := (content.takeWhile (· == 0x23)).length
  (if hashes = 0 then content else trim (content.drop hashes), (hashes : Int).bmod (2 ^ 32))

def endsWith (text end_ : Bytes) : Bool := end_.isSuffixOf text

/-- mirrors src/mapping/deepseek.cpp:494-501 -/
def textLabel (label : Bytes) : DocItemLabel :=
  if endsWith label (ascii "_caption") then .caption
  else if label = ascii "header" then .pageHeader
  else if label = ascii "footer" then .pageFooter
  else .text

section Loop
variable (page : PageContext) (raster : PageRaster) (byteSizeLong : TableCell → Nat)

/-- The item of a block.
mirrors src/mapping/deepseek.cpp:481-503 -/
def emitItem (w : LayoutWriter) (block : GroundedBlock) : LayoutWriter × BodyChild :=
  if block.label = ascii "figure" ∨ block.label = ascii "image" then
    picture page raster w (some block.box) none
  else if block.label = ascii "table" then
    table page byteSizeLong w (some block.box) none (deepseekTableCells block.content)
  else if block.label = ascii "title" then
    title page w (some block.box) (stripHashes block.content).1 none
  else if block.label = ascii "sub_title" then
    let stripped := stripHashes block.content
    heading page w (some block.box) stripped.1 none (if stripped.2 > 0 then stripped.2 else 2)
  else text page w (some block.box) block.content none (textLabel block.label)

/-- The caption an owner writes ahead of itself.
mirrors src/mapping/deepseek.cpp:470-476 -/
def emitCaption (w : LayoutWriter) (label : Bytes) (next : Option GroundedBlock) :
    LayoutWriter × Option BodyChild :=
  match next with
  | some next =>
    if !(captionOf label).isEmpty && next.label == captionOf label then
      Prod.map id some (text page w (some next.box) next.content none .caption)
    else (w, none)
  | none => (w, none)

/-- Whether a block was written ahead of its owner.
mirrors src/mapping/deepseek.cpp:477-480 -/
def isWritten (label : Bytes) (prev : Option GroundedBlock) : Bool :=
  match prev with
  | some prev => endsWith label (ascii "_caption") && captionOf prev.label == label
  | none => false

/-- mirrors src/mapping/deepseek.cpp:467-508 -/
def emitBlock (blocks : List GroundedBlock) (w : LayoutWriter) (idx : Nat) : LayoutWriter :=
  match blocks[idx]? with
  | none => w
  | some block =>
    let r := emitCaption page w block.label blocks[idx + 1]?
    if isWritten block.label (if idx = 0 then none else blocks[idx - 1]?) then r.1
    else
      let item := emitItem page raster byteSizeLong r.1 block
      match r.2 with
      | some caption => linkCaption item.1 item.2 caption
      | none => item.1

/-- mirrors src/mapping/deepseek.cpp:467-508 -/
def emitBlocks (w : LayoutWriter) (blocks : List GroundedBlock) : LayoutWriter :=
  (List.range blocks.length).foldl (emitBlock page raster byteSizeLong blocks) w

/-! ## The mapper -/

/-- mirrors src/mapping/layout.cpp:487-493 -/
def gridBox (coords : List Float) (grid : Float) : BoundingBox :=
  match coords with
  | l :: t :: r :: b :: _ =>
    if grid ≤ 0 then fullPageBox page
    else scaledBox page l t r b (page.width.toFloat / grid) (page.height.toFloat / grid)
  | _ => fullPageBox page

def kGrid : Float := 1000

/-- mirrors src/mapping/deepseek.cpp:387-446 -/
def groundedBlocks (fromChars : Bytes → Option (Float × Bytes)) (text : Bytes) :
    List GroundedBlock :=
  (deepseekBlocks fromChars text).map fun b =>
    ⟨b.note.label, b.content (text.splitOn 0x0A), gridBox page b.note.coords kGrid⟩

/-- mirrors src/mapping/deepseek.cpp:385-510 -/
def mapDeepseekOcr (fromChars : Bytes → Option (Float × Bytes)) (text : Bytes)
    (warnings : Option (List PageWarning)) : Except Bytes (Document × Option (List PageWarning)) :=
  finish page raster (emitBlocks page raster byteSizeLong { warnings := warnings }
    (groundedBlocks page fromChars text)) (ascii "DeepSeek-OCR") false

end Loop

/-! ## What a reader sees of an item -/

/-- Label, text, boxes, captions and footnotes of an item. -/
structure ItemView where
  label : DocItemLabel
  text : Bytes
  boxes : List BoundingBox
  captions : List Bytes
  footnotes : List Bytes

def textView : BaseTextItem → ItemView
  | .code item => ⟨.code, item.text, item.prov.map (·.bbox), item.captions, item.footnotes⟩
  | .title base | .sectionHeader base _ | .listItem base _ _ | .formula base | .text base
  | .fieldHeading base | .fieldValue base _ =>
      ⟨base.label, base.text, base.prov.map (·.bbox), [], []⟩

def pictureView (item : PictureItem) : ItemView :=
  ⟨item.label, [], item.prov.map (·.bbox), item.captions, item.footnotes⟩

def tableView (item : TableItem) : ItemView :=
  ⟨item.label, [], item.prov.map (·.bbox), item.captions, item.footnotes⟩

def view (doc : Document) (ref : BodyChild) : Option ItemView :=
  match ref.kind with
  | .text => doc.texts[ref.index]?.map textView
  | .picture => doc.pictures[ref.index]?.map pictureView
  | .table => doc.tables[ref.index]?.map tableView
  | _ => none

/-- The label of a block's item. -/
def itemLabel (label : Bytes) : DocItemLabel :=
  if label = ascii "figure" ∨ label = ascii "image" then .picture
  else if label = ascii "table" then .table
  else if label = ascii "title" then .title
  else if label = ascii "sub_title" then .sectionHeader
  else textLabel label

/-- The text of a block's item: none of a picture or table. -/
def itemBody (block : GroundedBlock) : Bytes :=
  if block.label = ascii "figure" ∨ block.label = ascii "image" then []
  else if block.label = ascii "table" then []
  else if block.label = ascii "title" then (stripHashes block.content).1
  else if block.label = ascii "sub_title" then (stripHashes block.content).1
  else block.content

/-- The item of a block that has these captions. -/
def blockView (block : GroundedBlock) (captions : List Bytes) : ItemView :=
  ⟨itemLabel block.label, itemBody block, [block.box], captions, []⟩

/-! ## Creating an item -/

/-- The writer got one item more, and no other changed. -/
structure Grows (w w' : LayoutWriter) (ref : BodyChild) (v : ItemView) : Prop where
  entries : w'.entries = w.entries ++ [(ref, none)]
  fresh : (w.doc.node ref).isSome = false
  held : ∀ r, (w'.doc.node r).isSome = true ↔ r = ref ∨ (w.doc.node r).isSome = true
  new : view w'.doc ref = some v
  other : ∀ r, r ≠ ref → view w'.doc r = view w.doc r

section Grows
variable {w w' : LayoutWriter} {ref : BodyChild} {v : ItemView}

theorem grows_of_made (h : Made w w' ref none) (hnew : view w'.doc ref = some v)
    (hother : ∀ r, r ≠ ref → view w'.doc r = view w.doc r) : Grows w w' ref v := by
  refine ⟨h.entries, by rw [h.adds.fresh]; rfl, fun r => ?_, hnew, hother⟩
  rw [h.adds.node_eq]
  by_cases hr : r = ref <;> simp [hr]

/-- One more item of a list. -/
theorem getElem?_concat_ne {α : Type} (l : List α) (a : α) {j : Nat} (hj : j ≠ l.length) :
    (l ++ [a])[j]? = l[j]? := by
  rcases Nat.lt_or_gt_of_ne hj with h | h
  · exact List.getElem?_append_left h
  · rw [List.getElem?_eq_none (by simp; omega), List.getElem?_eq_none (by omega)]

theorem grows_enterText {item : BaseTextItem} (hnode : item.node = {}) (hlinks : item.links = []) :
    Grows w (enterText w (w.doc.addTexts item) none).1 (enterText w (w.doc.addTexts item) none).2
      (textView item) := by
  refine grows_of_made (made_enterText hnode hlinks) ?_ ?_
  · simp [enterText, addEntry, view, Document.addTexts]
  · rintro ⟨k, j⟩ hr
    cases k with
    | text =>
      have hj : j ≠ w.doc.texts.length := by
        rintro rfl
        exact hr (by simp [enterText, Document.addTexts])
      simp [enterText, addEntry, view, Document.addTexts, getElem?_concat_ne _ _ hj]
    | _ => rfl

variable (page : PageContext) (raster : PageRaster) (byteSizeLong : TableCell → Nat)
    (box : BoundingBox)

theorem grows_text (body : Bytes) (label : DocItemLabel) :
    Grows w (text page w (some box) body none label).1 (text page w (some box) body none label).2
      ⟨label, body, [box], [], []⟩ := by
  unfold text stampLayer
  split
  · exact grows_enterText rfl rfl
  · exact grows_enterText rfl rfl

theorem grows_picture :
    Grows w (picture page raster w (some box) none).1 (picture page raster w (some box) none).2
      ⟨.picture, [], [box], [], []⟩ := by
  refine grows_of_made (made_picture page raster (some box)) ?_ ?_
  · simp [picture, addEntry, view, Document.addPictures, pictureView, newPicture, prov,
      provWithCharspan, makeProv]
  · rintro ⟨k, j⟩ hr
    cases k with
    | picture =>
      have hj : j ≠ w.doc.pictures.length := by
        rintro rfl
        exact hr (by simp [picture, Document.addPictures])
      simp [picture, addEntry, view, Document.addPictures, getElem?_concat_ne _ _ hj]
    | _ => rfl

theorem grows_table (cells : List SpanCell) :
    Grows w (table page byteSizeLong w (some box) none cells).1
      (table page byteSizeLong w (some box) none cells).2 ⟨.table, [], [box], [], []⟩ := by
  have hdoc : ∃ data, (table page byteSizeLong w (some box) none cells).1.doc =
      w.doc.addTables { newTable page (prov page (some box) 0) with data := data } := by
    unfold table
    split <;> exact ⟨_, rfl⟩
  have href : (table page byteSizeLong w (some box) none cells).2 =
    ⟨.table, w.doc.tables.length⟩ := by
    unfold table
    split <;> rfl
  obtain ⟨data, hdoc⟩ := hdoc
  refine grows_of_made (made_table page byteSizeLong (some box) cells) ?_ ?_
  · rw [hdoc, href]
    simp [view, Document.addTables, tableView, newTable, prov, provWithCharspan, makeProv]
  · rintro ⟨k, j⟩ hr
    rw [hdoc]
    rw [href] at hr
    cases k with
    | table =>
      have hj : j ≠ w.doc.tables.length := by
        rintro rfl
        exact hr rfl
      simp [view, Document.addTables, getElem?_concat_ne _ _ hj]
    | _ => rfl

/-- **The item of a block**, whatever its label. -/
theorem grows_emitItem (block : GroundedBlock) :
    Grows w (emitItem page raster byteSizeLong w block).1
      (emitItem page raster byteSizeLong w block).2 (blockView block []) := by
  unfold emitItem blockView itemLabel itemBody
  split_ifs with h1 h2 h3 h4
  · exact grows_picture page raster block.box
  · exact grows_table page byteSizeLong block.box _
  · exact grows_enterText rfl rfl
  · exact grows_enterText rfl rfl
  · exact grows_text page block.box block.content _

/-- The view of an edited item, and of the others of its list. -/
theorem getElem?_modify_view {α : Type} (l : List α) (f : α → α) (g : α → ItemView)
    (g' : ItemView → ItemView) (h : ∀ a, g (f a) = g' (g a)) (i j : Nat) :
    (l.modify i f)[j]?.map g = if j = i then (l[j]?.map g).map g' else l[j]?.map g := by
  rw [List.getElem?_modify]
  cases l[j]? with
  | none => simp
  | some a => by_cases hij : i = j <;> simp [hij, h, eq_comm]

theorem view_linkCaption (hk : ref.kind = .picture ∨ ref.kind = .table) (caption r : BodyChild) :
    view (LayoutWriter.linkCaption w ref caption).doc r =
      if r = ref then (view w.doc r).map fun v =>
        { v with captions := v.captions ++ [bodyChildRef caption] }
      else view w.doc r := by
  obtain ⟨k, i⟩ := ref
  obtain ⟨k', j⟩ := r
  rcases hk with hk | hk
  · cases hk
    cases k' with
    | picture =>
      simp only [BodyChild.mk.injEq, true_and]
      exact getElem?_modify_view _ _ _ _ (by intro a; rfl) i j
    | _ => rw [if_neg (by rintro ⟨⟩)]; rfl
  · cases hk
    cases k' with
    | table =>
      simp only [BodyChild.mk.injEq, true_and]
      exact getElem?_modify_view _ _ _ _ (by intro a; rfl) i j
    | _ => rw [if_neg (by rintro ⟨⟩)]; rfl

/-- The caption of a new picture or table. -/
theorem Grows.linkCaption (h : Grows w w' ref v) (hk : ref.kind = .picture ∨ ref.kind = .table)
    (caption : BodyChild) : Grows w (linkCaption w' ref caption) ref
      { v with captions := v.captions ++ [bodyChildRef caption] } := by
  have hedit := edited_linkCaption (w := w') ref caption
  refine ⟨hedit.entries.trans h.entries, h.fresh,
    fun r => by rw [hedit.node]; exact h.held r, ?_, ?_⟩
  · rw [view_linkCaption hk, if_pos rfl, h.new]
    rfl
  · intro r hr
    rw [view_linkCaption hk, if_neg hr]
    exact h.other r hr

end Grows

/-! ## Captions and their owners -/

/-- Block `i` is an owner and the next block its caption. -/
def isPair (blocks : List GroundedBlock) (i : Nat) : Bool :=
  match blocks[i]?, blocks[i + 1]? with
  | some owner, some caption =>
      !(captionOf owner.label).isEmpty && caption.label == captionOf owner.label
  | _, _ => false

/-- Block `i` is the caption of the block before it. -/
def isOwned (blocks : List GroundedBlock) (i : Nat) : Bool := i ≠ 0 && isPair blocks (i - 1)

/-- The block whose item is created `k`-th: an owner and its caption change
places, and every other block keeps its own. -/
def place (blocks : List GroundedBlock) (k : Nat) : Nat :=
  if isPair blocks k then k + 1 else if isOwned blocks k then k - 1 else k

/-- The captions of the item created `k`-th: the item created before it, if it
is that of an owner with its caption. -/
def captionsAt (blocks : List GroundedBlock) (refs : List BodyChild) (k : Nat) : List Bytes :=
  if isOwned blocks k then (refs[k - 1]?.map bodyChildRef).toList else []

section Labels

theorem captionOf_cases (label : Bytes) : captionOf label = [] ∨
    (label = ascii "table" ∧ captionOf label = ascii "table_caption") ∨
    (label = ascii "figure" ∧ captionOf label = ascii "figure_caption") ∨
    (label = ascii "image" ∧ captionOf label = ascii "image_caption") := by
  unfold captionOf
  split_ifs with h1 h2 h3
  · exact Or.inr (Or.inl ⟨h1, rfl⟩)
  · exact Or.inr (Or.inr (Or.inl ⟨h2, rfl⟩))
  · exact Or.inr (Or.inr (Or.inr ⟨h3, rfl⟩))
  · exact Or.inl rfl

/-- A caption label ends in `_caption`, owns nothing, and is that of a text
item with the block's content. -/
theorem caption_label {label owner : Bytes} (hne : captionOf owner ≠ [])
    (h : label = captionOf owner) :
    endsWith label (ascii "_caption") = true ∧ captionOf label = [] ∧ itemLabel label = .caption ∧
      (∀ content box, itemBody ⟨label, content, box⟩ = content) := by
  subst h
  rcases captionOf_cases owner with h | ⟨-, h⟩ | ⟨-, h⟩ | ⟨-, h⟩
  · exact absurd h hne
  all_goals
    rw [h]
    exact ⟨by decide, by decide, by decide, fun _ _ => rfl⟩

/-- An owner's item is a picture or a table. -/
theorem emitItem_kind (page : PageContext) (raster : PageRaster) (byteSizeLong : TableCell → Nat)
    (w : LayoutWriter) {block : GroundedBlock} (hne : captionOf block.label ≠ []) :
    (emitItem page raster byteSizeLong w block).2.kind = .picture ∨
      (emitItem page raster byteSizeLong w block).2.kind = .table := by
  unfold emitItem
  rcases captionOf_cases block.label with h | ⟨h, -⟩ | ⟨h, -⟩ | ⟨h, -⟩
  · exact absurd h hne
  · rw [if_neg (by rw [h]; decide), if_pos h]
    refine Or.inr ?_
    unfold table
    split <;> rfl
  · rw [if_pos (Or.inl h)]
    exact Or.inl rfl
  · rw [if_pos (Or.inr h)]
    exact Or.inl rfl

variable {blocks : List GroundedBlock} {i : Nat}

theorem isPair_iff : isPair blocks i = true ↔ ∃ owner caption, blocks[i]? = some owner ∧
    blocks[i + 1]? = some caption ∧ captionOf owner.label ≠ [] ∧
    caption.label = captionOf owner.label := by
  unfold isPair
  cases blocks[i]? with
  | none => simp
  | some owner =>
    cases blocks[i + 1]? with
    | none => simp
    | some caption => simp

/-- A caption owns nothing. -/
theorem isPair_of_owned (h : isOwned blocks i = true) : isPair blocks i = false := by
  rw [isOwned, Bool.and_eq_true, decide_eq_true_eq] at h
  obtain ⟨hi, h⟩ := h
  obtain ⟨owner, caption, -, hcaption, hne, hlabel⟩ := isPair_iff.1 h
  rw [Nat.sub_add_cancel (Nat.pos_of_ne_zero hi)] at hcaption
  rw [Bool.eq_false_iff]
  intro hpair
  obtain ⟨owner', -, howner', -, hne', -⟩ := isPair_iff.1 hpair
  rw [hcaption, Option.some.injEq] at howner'
  exact hne' (howner' ▸ (caption_label hne hlabel).2.1)

/-- The look back finds exactly the captions that were written ahead. -/
theorem isWritten_iff {block : GroundedBlock} (hblock : blocks[i]? = some block) :
    isWritten block.label (if i = 0 then none else blocks[i - 1]?) = isOwned blocks i := by
  cases i with
  | zero => rfl
  | succ i =>
    rw [if_neg (Nat.succ_ne_zero i), Nat.add_sub_cancel, isOwned, Nat.add_sub_cancel,
      isPair, hblock]
    cases hprev : blocks[i]? with
    | none => simp [isWritten]
    | some prev =>
      rw [Bool.eq_iff_iff]
      simp only [isWritten, Bool.and_eq_true, beq_iff_eq, ne_eq, Nat.succ_ne_zero,
        not_false_eq_true, decide_true, Bool.not_eq_true', List.isEmpty_eq_false_iff, true_and]
      constructor
      · rintro ⟨hend, hlabel⟩
        refine ⟨fun hnil => ?_, hlabel.symm⟩
        rw [hnil] at hlabel
        rw [← hlabel] at hend
        exact absurd hend (by decide)
      · rintro ⟨hne, hlabel⟩
        exact ⟨(caption_label hne hlabel).1, hlabel.symm⟩

/-- The look ahead writes the caption of a pair. -/
theorem emitCaption_eq (page : PageContext) (w : LayoutWriter) {block : GroundedBlock}
    (hblock : blocks[i]? = some block) :
    (isPair blocks i = false ∧ emitCaption page w block.label blocks[i + 1]? = (w, none)) ∨
    ∃ caption, isPair blocks i = true ∧ blocks[i + 1]? = some caption ∧ captionOf block.label ≠ [] ∧
      caption.label = captionOf block.label ∧
      emitCaption page w block.label blocks[i + 1]? =
        Prod.map id some (text page w (some caption.box) caption.content none .caption) := by
  unfold emitCaption isPair
  rw [hblock]
  cases hnext : blocks[i + 1]? with
  | none => exact Or.inl ⟨rfl, rfl⟩
  | some caption =>
    cases hpair : (!(captionOf block.label).isEmpty && caption.label == captionOf block.label) with
    | false => exact Or.inl ⟨hpair, if_neg (by rw [hpair]; exact Bool.false_ne_true)⟩
    | true =>
      have hboth := hpair
      simp only [Bool.and_eq_true, Bool.not_eq_true', List.isEmpty_eq_false_iff, beq_iff_eq]
        at hboth
      exact Or.inr ⟨caption, hpair, rfl, hboth.1, hboth.2, if_pos hpair⟩

end Labels

/-! ## The run -/

/-- The items created so far. -/
structure Emitted (blocks : List GroundedBlock) (w : LayoutWriter) (refs : List BodyChild) :
    Prop where
  nodup : refs.Nodup
  entries : w.entries = refs.map fun ref => (ref, none)
  items : ∀ r, (w.doc.node r).isSome = true ↔ r ∈ refs
  shows : ∀ k ref, refs[k]? = some ref → ∃ block, blocks[place blocks k]? = some block ∧
    view w.doc ref = some (blockView block (captionsAt blocks refs k))

section Run
variable {blocks : List GroundedBlock} {w w' : LayoutWriter} {refs : List BodyChild}
    {ref : BodyChild}

/-- One more item. -/
theorem Emitted.step {block : GroundedBlock} (h : Emitted blocks w refs)
    (hblock : blocks[place blocks refs.length]? = some block)
    (hgrows : Grows w w' ref (blockView block (captionsAt blocks refs refs.length))) :
    Emitted blocks w' (refs ++ [ref]) := by
  have hnew : ref ∉ refs := by
    rw [← h.items, hgrows.fresh]
    exact Bool.false_ne_true
  have hbefore : ∀ k, k ≤ refs.length →
    captionsAt blocks (refs ++ [ref]) k = captionsAt blocks refs k := by
    intro k hk
    unfold captionsAt
    cases howned : isOwned blocks k with
    | false => rfl
    | true =>
      have hpos : k ≠ 0 := by
        rintro rfl
        cases howned
      rw [List.getElem?_append_left (by omega)]
  refine ⟨?_, ?_, fun r => ?_, fun k r hr => ?_⟩
  · rw [List.nodup_append]
    refine ⟨h.nodup, List.nodup_singleton _, ?_⟩
    rintro a ha b hb rfl
    rw [List.mem_singleton] at hb
    exact hnew (hb ▸ ha)
  · rw [hgrows.entries, h.entries, List.map_append]
    rfl
  · rw [hgrows.held, h.items, List.mem_append, List.mem_singleton, or_comm]
  · by_cases hk : k = refs.length
    · subst hk
      rw [List.getElem?_concat_length, Option.some.injEq] at hr
      subst hr
      exact ⟨block, hblock, by rw [hbefore _ (Nat.le_refl _)]; exact hgrows.new⟩
    · rw [getElem?_concat_ne _ _ hk] at hr
      have hlt := (List.getElem?_eq_some_iff.1 hr).1
      obtain ⟨b, hb, hview⟩ := h.shows k r hr
      refine ⟨b, hb, ?_⟩
      rw [hbefore k (Nat.le_of_lt hlt), ← hview]
      refine hgrows.other r ?_
      rintro rfl
      exact hnew (List.mem_of_getElem? hr)

variable (page : PageContext) (raster : PageRaster) (byteSizeLong : TableCell → Nat)

/-- How many items there are when the loop comes to block `i`: a caption has
been written ahead. -/
def created (blocks : List GroundedBlock) (i : Nat) : Nat := if isOwned blocks i then i + 1 else i

/-- **One block.** -/
theorem emitBlock_emitted {i : Nat} (hi : i < blocks.length) (h : Emitted blocks w refs)
    (hlen : refs.length = created blocks i) :
    ∃ refs', Emitted blocks (emitBlock page raster byteSizeLong blocks w i) refs' ∧
      refs'.length = created blocks (i + 1) := by
  have hblock : blocks[i]? = some blocks[i] := List.getElem?_eq_getElem hi
  have hnext : isOwned blocks (i + 1) = isPair blocks i := rfl
  unfold emitBlock
  rw [hblock]
  simp only [isWritten_iff hblock]
  rcases emitCaption_eq page w hblock with
    ⟨hpair, hcaption⟩ | ⟨caption, hpair, hc, hne, hlabel, hcaption⟩
  · rw [hcaption]
    cases howned : isOwned blocks i with
    | true =>
      -- written already
      refine ⟨refs, h, ?_⟩
      rw [hlen, created, created, howned, hnext, hpair]
      rfl
    | false =>
      replace hlen : refs.length = i := by rw [hlen, created, howned]; rfl
      have hplace : place blocks refs.length = i := by
        rw [hlen, place, hpair, howned]
        rfl
      have hgrows : Grows w (emitItem page raster byteSizeLong w blocks[i]).1
          (emitItem page raster byteSizeLong w blocks[i]).2
          (blockView blocks[i] (captionsAt blocks refs refs.length)) := by
        rw [hlen, captionsAt, howned]
        exact grows_emitItem page raster byteSizeLong blocks[i]
      refine ⟨_, h.step (by rw [hplace]; exact hblock) hgrows, ?_⟩
      rw [List.length_append, hlen, created, hnext, hpair]
      rfl
  · have howned : isOwned blocks i = false := by
      cases howned : isOwned blocks i with
      | false => rfl
      | true => rw [isPair_of_owned howned] at hpair; cases hpair
    replace hlen : refs.length = i := by rw [hlen, created, howned]; rfl
    rw [hcaption, howned]
    -- the caption first
    obtain ⟨-, hcnone, hclabel, hcbody⟩ := caption_label hne hlabel
    have hplace : place blocks refs.length = i + 1 := by
      rw [hlen, place, hpair]
      rfl
    have hview : blockView caption (captionsAt blocks refs refs.length) =
        ⟨.caption, caption.content, [caption.box], [], []⟩ := by
      rw [hlen, captionsAt, howned, blockView, hclabel]
      rw [show itemBody caption = caption.content from hcbody caption.content caption.box]
      rfl
    have hfirst := h.step (by rw [hplace]; exact hc)
      (hview ▸ grows_text page caption.box caption.content .caption)
    generalize text page w (some caption.box) caption.content none .caption = r at hfirst
    -- then its owner
    have hplace' : place blocks (refs ++ [r.2]).length = i := by
      have hnone : isPair blocks (i + 1) = false := isPair_of_owned (hnext.trans hpair)
      rw [List.length_append, hlen, place, List.length_singleton, hnone, hnext, hpair]
      rfl
    have hgrows := (grows_emitItem (w := r.1) page raster byteSizeLong blocks[i]).linkCaption
      (emitItem_kind page raster byteSizeLong r.1 hne) r.2
    have hcaptions : captionsAt blocks (refs ++ [r.2]) (refs ++ [r.2]).length =
      [bodyChildRef r.2] := by
      rw [List.length_append, hlen, captionsAt, List.length_singleton, hnext, hpair,
        Nat.add_sub_cancel, ← hlen, List.getElem?_concat_length]
      rfl
    refine ⟨_, hfirst.step (by rw [hplace']; exact hblock) (hcaptions ▸ hgrows), ?_⟩
    rw [List.length_append, List.length_append, hlen, created, hnext, hpair]
    rfl

/-- The blocks before `n`. -/
theorem emitBlocks_emitted (warnings : Option (List PageWarning)) (n : Nat) : n ≤ blocks.length →
    ∃ refs, Emitted blocks ((List.range n).foldl (emitBlock page raster byteSizeLong blocks)
      { warnings := warnings }) refs ∧ refs.length = created blocks n := by
  induction n with
  | zero =>
    intro _
    refine ⟨[], ⟨List.nodup_nil, rfl, fun r => ?_, fun k ref hr => by cases hr⟩, rfl⟩
    rw [node_isSome]
    obtain ⟨k, i⟩ := r
    cases k <;> simp [Document.size]
  | succ n ih =>
    intro hn
    obtain ⟨refs, hrefs, hlen⟩ := ih (by omega)
    rw [List.range_succ, List.foldl_append]
    exact emitBlock_emitted page raster byteSizeLong hn hrefs hlen

theorem isOwned_succ (i : Nat) : isOwned blocks (i + 1) = isPair blocks i := rfl

/-- Owner and caption change places: doing it twice changes nothing. -/
theorem place_place (k : Nat) : place blocks (place blocks k) = k := by
  cases hpair : isPair blocks k with
  | true =>
    have howned : isOwned blocks (k + 1) = true := hpair
    rw [show place blocks k = k + 1 by rw [place, hpair]; rfl, place,
      isPair_of_owned howned, howned]
    rfl
  | false =>
    cases howned : isOwned blocks k with
    | true =>
      have hprev : k ≠ 0 ∧ isPair blocks (k - 1) = true := by simpa [isOwned] using howned
      rw [show place blocks k = k - 1 by rw [place, hpair, howned]; rfl, place, hprev.2, if_pos rfl]
      omega
    | false =>
      rw [show place blocks k = k by rw [place, hpair, howned]; rfl, place, hpair, howned]; rfl

end Run

/-- **One item per block, captions right before their owners.** For every list
of blocks, the loop creates as many items as there are blocks, all under the
body, and the `k`-th is that of block `place blocks k`: an owner and the
caption block of its kind right behind it change places, and every other block
keeps its own. The caption of a pair is labelled `CAPTION`; the owner has it,
the item created right before, as its only caption; and no other item has a
caption or footnote at all. -/
theorem emitBlocks_items (page : PageContext) (raster : PageRaster) (byteSizeLong : TableCell → Nat)
    (warnings : Option (List PageWarning)) (blocks : List GroundedBlock) :
    ∃ refs, refs.length = blocks.length ∧
      Emitted blocks (emitBlocks page raster byteSizeLong { warnings := warnings } blocks) refs ∧
      (∀ k, place blocks (place blocks k) = k) ∧
      (∀ i, isPair blocks i = true → ∃ caption, blocks[i + 1]? = some caption ∧
        itemLabel caption.label = .caption) := by
  obtain ⟨refs, hrefs, hlen⟩ :=
    @emitBlocks_emitted blocks page raster byteSizeLong warnings blocks.length (Nat.le_refl _)
  -- no block follows the last one
  have hlast : isOwned blocks blocks.length = false := by
    cases hn : blocks.length with
    | zero => rfl
    | succ n =>
      rw [isOwned_succ, isPair, ← hn, List.getElem?_eq_none (Nat.le_refl _)]
      cases blocks[n]? <;> rfl
  refine ⟨refs, ?_, hrefs, place_place, fun i hpair => ?_⟩
  · rw [hlen, created, hlast]
    rfl
  · obtain ⟨owner, caption, -, hcaption, hne, hlabel⟩ := isPair_iff.1 hpair
    exact ⟨caption, hcaption, (caption_label hne hlabel).2.2.1⟩

end VlmConvert.L3.Deepseek

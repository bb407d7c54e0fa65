import VlmConvert.L3Document.DoctagsIndependence
import VlmConvert.L3Document.DoctagsInner

/-!
# DocTags: elements of an inline group

The children of an `<inline>` group do not go through the tokenizer.
`emit_inline_group` makes a child of a name and of the text `inner_text` finds
in its chunk, and hands it to `emit_element` with the group's box. What an
element holds besides its text (captions, classification tags, OTSL) is not
read, and the emitters of pictures and tables stamp the child's own box, which
is the full page.

Result: `inline_same_iff`, exactly which closed elements map inside `<inline>`
like outside it.
-/
namespace VlmConvert.L3

open Bytes L2

/-! ## Items moved into a group -/

def ProvenanceItem.within (box : BoundingBox) (prov : ProvenanceItem) : ProvenanceItem :=
  { prov with bbox := box }

def BaseTextItem.mapProv (f : ProvenanceItem → ProvenanceItem) : BaseTextItem → BaseTextItem
  | .code item => .code { item with prov := item.prov.map f }
  | item => item.mapBase fun base => { base with prov := base.prov.map f }

/-- A text item under another parent, in another box. -/
def BaseTextItem.moved (parent : Bytes) (box : BoundingBox) (item : BaseTextItem) : BaseTextItem :=
  (stampTextItem item item.node.selfRef parent).mapProv (.within box)

def PictureItem.moved (parent : Bytes) (box : BoundingBox) (item : PictureItem) : PictureItem :=
  { item with parent := some parent, prov := item.prov.map (.within box) }

def TableItem.moved (parent : Bytes) (box : BoundingBox) (item : TableItem) : TableItem :=
  { item with parent := some parent, prov := item.prov.map (.within box) }

/-- The first group of a page. -/
def firstGroup : BodyChild := ⟨.group, 0⟩

/-- A page's items as the children of one inline group, all in its box. -/
def Document.inGroup (box : BoundingBox) (doc : Document) : Document :=
  { doc with
    body := { doc.body with children := [bodyChildRef firstGroup] }
    groups := [{
      selfRef := bodyChildRef firstGroup
      parent := some bodyRef
      children := doc.body.children
      name := some (ascii "group")
      label := .inline_
      contentLayer := .body }]
    texts := doc.texts.map (·.moved (bodyChildRef firstGroup) box)
    pictures := doc.pictures.map (·.moved (bodyChildRef firstGroup) box)
    tables := doc.tables.map (·.moved (bodyChildRef firstGroup) box) }

namespace Doctags

/-! ## One element in a group -/

def TopElement.name : TopElement → Bytes
  | .text name _ | .container name _ | .group name _ => name
  | .otsl _ => ascii "otsl"

/-- What stands between an element's tags. -/
def TopElement.inside : TopElement → Bytes
  | .text _ content => content.render Inline.render
  | .container _ content => content.render Part.render
  | .otsl body | .group _ body => body

def TopElement.isGroup : TopElement → Bool
  | .group _ _ => true
  | _ => false

/-- `<inline>` around an element. -/
def TopElement.inlined (element : TopElement) : TopElement := .group (ascii "inline") element.render

/-- A closed element, and a closed `<inline>` around it: each ends at the first
close tag of its name. -/
def TopElement.single (element : TopElement) : Bool :=
  element.closed && !element.isGroup && (findSub (closeTag element.name) element.inside).isNone &&
    element.inlined.closed

theorem TopElement.render_eq (element : TopElement) :
    element.render = openTag element.name ++ (element.inside ++ closeTag element.name) := by
  cases element <;> simp [TopElement.render, TopElement.name, TopElement.inside]

/-- An element that is no group has a name the group's loop reads as a tag. -/
theorem TopElement.name_open {element : TopElement} (h : element.closed = true)
    (hgroup : element.isGroup = false) : (∃ c tail, element.name = c :: tail ∧ isAlpha c = true) ∧
      0x3E ∉ element.name ∧ (ascii "loc_").isPrefixOf element.name = false := by
  have hopens : ∀ {name}, opensElement name = true →
      (∃ c tail, name = c :: tail ∧ isAlpha c = true) ∧ 0x3E ∉ name ∧
        (ascii "loc_").isPrefixOf name = false := by
    intro name hname
    have hhead := Scan.opensElement_head hname
    simp only [opensElement, Bool.and_eq_true, Bool.not_eq_true', List.contains_eq_mem,
      decide_eq_false_iff_not] at hname
    exact ⟨hhead, hname.1.1.1.1.2, hname.1.1.1.2⟩
  cases element with
  | text name content =>
    simp only [TopElement.closed, Bool.and_eq_true] at h
    exact hopens h.1.1.1
  | container name content =>
    simp only [TopElement.closed, Bool.and_eq_true] at h
    exact hopens (container_name h.1).1
  | otsl body =>
      exact ⟨⟨0x6F, ascii "tsl", rfl, rfl⟩, (by decide : (0x3E : UInt8) ∉ ascii "otsl"), rfl⟩
  | group token body => cases hgroup

/-! ## The children of the group -/

theorem inlineChildren_nil (fuel : Nat) : inlineChildren fuel [] = [] := by
  cases fuel <;> rfl

/-- The one child of a group with one element. -/
theorem inlineChildren_single {element : TopElement} (h : element.single = true) :
    inlineChildren element.render.length element.render =
      [{ name := element.name, text := innerText element.render }] := by
  simp only [TopElement.single, Bool.and_eq_true, Bool.not_eq_true', Option.isNone_iff_eq_none] at h
  obtain ⟨⟨⟨hclosed, hgroup⟩, hends⟩, -⟩ := h
  obtain ⟨⟨c, tail, hname, hc⟩, hgt, hloc⟩ := element.name_open hclosed hgroup
  have hrender := element.render_eq
  have hfind : findSub (closeTag element.name) (element.inside ++ closeTag element.name) =
      some (element.inside, closeTag element.name) := by
    have hbefore := @findSub_before 0x3E (0x3C :: 0x2F :: element.name) (by simpa using hgt) []
      element.inside hends
    rw [List.append_nil] at hbefore
    exact hbefore
  have htext : element.render =
      0x3C :: (element.name ++ 0x3E :: (element.inside ++ closeTag element.name)) := by
    rw [hrender]
    simp [openTag]
  have hlt : findByte 0x3C element.render = some ([], element.render) := by
    rw [htext]
    exact @findByte_append 0x3C [] _ (by simp)
  have hclose : findByte 0x3E element.render =
      some (0x3C :: element.name, 0x3E :: (element.inside ++ closeTag element.name)) := by
    rw [htext, ← List.cons_append]
    exact findByte_append (by simpa using hgt)
  have hopens : opensTag element.render = true := by
    rw [htext, hname]
    simp [opensTag, hc]
  have hslash : (element.name.head? == some 0x2F) = false := by
    rw [hname]; exact Scan.alpha_ne hc rfl
  have hunder : (element.name.head? == some 0x5F) = false := by
    rw [hname]; exact Scan.alpha_ne hc rfl
  have hempty : element.name.isEmpty = false := by rw [hname]; rfl
  obtain ⟨fuel, hfuel⟩ : ∃ fuel, element.render.length = fuel + 1 := by
    rw [htext]
    exact ⟨_, rfl⟩
  have hcloseTag : ascii "</" ++ element.name ++ ascii ">" = closeTag element.name := rfl
  have hdrop : List.drop 1 (0x3E :: (element.inside ++ closeTag element.name)) =
      element.inside ++ closeTag element.name := rfl
  have hchunk : 0x3C :: element.name ++ [0x3E] ++ element.inside ++ closeTag element.name =
      element.render := by
    rw [hrender]
    simp [openTag]
  rw [hfuel, inlineChildren]
  simp only [hlt, hopens, hclose, Bool.not_true, Bool.false_eq_true, if_false, List.drop_succ_cons,
    List.drop_zero, hempty, hslash, hunder, hloc, Bool.or_self, hcloseTag, hfind, hchunk,
    List.drop_length, inlineChildren_nil]

/-- The group's content is found up to the last `</inline>`. -/
theorem beforeLast_end {needle : Bytes} (hne : needle ≠ []) (text : Bytes) :
    beforeLast needle (text ++ needle) = some text := by
  have hshort : ∀ l : Bytes, l.length < needle.length → beforeLast needle l = none := by
    intro l
    induction l with
    | nil => intro _; rfl
    | cons b l ih =>
      intro hlen
      rw [beforeLast, ih (Nat.lt_of_succ_lt hlen), if_neg]
      intro hpre
      exact Nat.not_le.2 hlen (List.isPrefixOf_iff_prefix.1 hpre).length_le
  induction text with
  | nil =>
    obtain ⟨b, tail, rfl⟩ := List.exists_cons_of_ne_nil hne
    rw [List.nil_append, beforeLast, hshort tail (by simp), if_pos]
    exact List.isPrefixOf_iff_prefix.2 (List.prefix_refl _)
  | cons b text ih => rw [List.cons_append, beforeLast, ih]

/-! ## The two pages -/

/-- The box the items of an inline group share.
mirrors src/mapping/doctags.cpp:723-725 -/
def sharedBox (page : PageContext) (content : Bytes) : BoundingBox :=
  let locs := firstLocs content
  if locs.length = 4 then locsBox locs page else fullPageBox page

section Same
variable (page : PageContext) (raster : PageRaster) (byteSizeLong : TableCell → Nat)
  (warnings : Option (List PageWarning))

/-- Inside `<inline>` an element makes the items it makes alone, images aside,
as the group's children and in the group's box. -/
def SameInline (element : TopElement) : Prop :=
  ∃ alone inlined warnings' warnings'',
    mapDoctags page raster byteSizeLong warnings element.render = .ok (alone, warnings') ∧
    mapDoctags page raster byteSizeLong warnings element.inlined.render =
      .ok (inlined, warnings'') ∧
    inlined.withoutImages = (alone.inGroup (sharedBox page element.render)).withoutImages

/-- The page of one element. -/
def alonePage (element : Element) : Document :=
  let s := (emitElement page raster byteSizeLong { warnings := warnings } element none).1
  finalizeDocument s.doc page s.order

/-- The page of one child of an inline group. -/
def inlinePage (box : BoundingBox) (child : Element) : Document :=
  let doc := ({} : Document).addGroups
    { name := some (ascii "group"), label := .inline_, contentLayer := .body }
  let s := emitInlineChild page raster byteSizeLong box firstGroup
    { doc := doc, order := [firstGroup], warnings := warnings } child
  finalizeDocument s.doc page s.order

variable {page raster byteSizeLong warnings}

/-- What an inline group reads of an element. -/
def TopElement.child (element : TopElement) : Element :=
  { name := element.name, text := innerText element.render }

theorem emitInlineGroup_single {element : TopElement} (h : element.single = true) :
    emitInlineGroup page raster byteSizeLong { warnings := warnings } element.inlined.render =
      emitInlineChild page raster byteSizeLong (sharedBox page element.render) firstGroup
        { doc := ({} : Document).addGroups
            { name := some (ascii "group"), label := .inline_, contentLayer := .body }
          order := [firstGroup], warnings := warnings } element.child := by
  have hopen : behindOpen element.inlined.render = element.render ++ closeTag (ascii "inline") := by
    have htext : element.inlined.render =
        (0x3C :: ascii "inline") ++ 0x3E :: (element.render ++ closeTag (ascii "inline")) := by
      simp [TopElement.inlined, TopElement.render, openTag]
    have hfind := @findByte_append 0x3E (0x3C :: ascii "inline")
      (element.render ++ closeTag (ascii "inline")) (by decide)
    rw [htext, behindOpen, hfind]
    rfl
  have hcontent : beforeLast (ascii "</inline>") (element.render ++ closeTag (ascii "inline")) =
      some element.render := beforeLast_end (by decide) element.render
  unfold emitInlineGroup
  dsimp only
  rw [hopen, hcontent, Option.getD_some, inlineChildren_single h]
  rfl

/-- Both responses map, to the pages of the element and of the child. -/
theorem sameInline_iff {element : TopElement} (h : element.single = true) {e : Element}
    (he : element.emission = .element e) :
    SameInline page raster byteSizeLong warnings element ↔
      (inlinePage page raster byteSizeLong warnings (sharedBox page element.render)
        element.child).withoutImages =
      ((alonePage page raster byteSizeLong warnings e).inGroup
        (sharedBox page element.render)).withoutImages := by
  have hsingle := h
  simp only [TopElement.single, Bool.and_eq_true, Bool.not_eq_true'] at h
  obtain ⟨⟨⟨hclosed, hgroup⟩, -⟩, hinlined⟩ := h
  have hemitted : emitted none [element] = [.element e] := by
    cases element with
    | group token body => cases hgroup
    | _ => simpa [emitted, TopElement.emission] using he
  obtain ⟨⟨w, hmap⟩, -⟩ := mapDoctags_render page raster byteSizeLong warnings
    (List.cons_ne_nil element []) (by simpa using hclosed)
  obtain ⟨⟨w', hmap'⟩, -⟩ := mapDoctags_render page raster byteSizeLong warnings
    (List.cons_ne_nil element.inlined []) (by simpa using hinlined)
  have hpage : emitElements page raster byteSizeLong warnings [element] =
      emit page raster byteSizeLong { warnings := warnings } (.element e) := by
    rw [emitElements, hemitted]
    rfl
  have hpage' : (emitElements page raster byteSizeLong warnings [element.inlined]).toEmitState =
      emitInlineGroup page raster byteSizeLong { warnings := warnings } element.inlined.render :=
        rfl
  rw [renderAll, List.flatMap_singleton, hpage] at hmap
  rw [renderAll, List.flatMap_singleton, hpage', emitInlineGroup_single hsingle] at hmap'
  refine ⟨?_, fun hsame => ⟨_, _, w, w', hmap, hmap', hsame⟩⟩
  rintro ⟨alone, inlined, _, _, hone, htwo, hsame⟩
  rw [hmap] at hone
  rw [hmap'] at htwo
  cases hone
  cases htwo
  exact hsame

end Same

/-! ## The items of the two pages -/

/-- A page with one inline group. -/
def groupedPage (page : PageContext) (children : List Bytes) (texts : List BaseTextItem)
    (pictures : List PictureItem) (tables : List TableItem) : Document :=
  { finalizeDocument {} page [] with
    body := { (finalizeDocument {} page []).body with children := [bodyChildRef firstGroup] }
    groups := [{
      selfRef := bodyChildRef firstGroup
      parent := some bodyRef
      children := children
      name := some (ascii "group")
      label := .inline_
      contentLayer := .body }]
    texts := texts
    pictures := pictures
    tables := tables }

section Pages
variable (page : PageContext) (raster : PageRaster) (byteSizeLong : TableCell → Nat)
  (warnings : Option (List PageWarning)) (box : BoundingBox)

def textRef : Bytes := bodyChildRef ⟨.text, 0⟩

/-- A text of the group. -/
def groupText (item : BaseTextItem) : BaseTextItem :=
  stampTextItem item textRef (bodyChildRef firstGroup)

/-- A picture of the group. -/
def groupPicture (element : Element) : PictureItem :=
  { newPicture page (provWithCharspan page box 0) with
    selfRef := bodyChildRef ⟨.picture, 0⟩
    parent := some (bodyChildRef firstGroup)
    info := (pictureInfo byteSizeLong element).1
    annotations := (pictureInfo byteSizeLong element).2.1 }

/-- A table of the group. -/
def groupTable (element : Element) : TableItem :=
  { newTable page (provWithCharspan page box 0) with
    selfRef := bodyChildRef ⟨.table, 0⟩
    parent := some (bodyChildRef firstGroup)
    data := (tableData byteSizeLong element).map (·.1) }

variable {page raster byteSizeLong warnings box} {e : Element}

theorem groupText_moved (item : BaseTextItem) :
    (stampTextItem item textRef bodyRef).moved (bodyChildRef firstGroup) box =
      groupText (item.mapProv (.within box)) := by
  cases item <;> rfl

section Text
variable (hcontainer : isContainer e.name = false)
include hcontainer

theorem emitElement_text (s : EmitState) (forcedBox : Option BoundingBox) :
    emitElement page raster byteSizeLong s e forcedBox =
      match textItem page e.name e.otsl (provWithCharspan page
        (forcedBox.getD (locsBox e.locs page)) (charLength (trim e.text))) (trim e.text) with
      | some item => (s.addText item, true)
      | none => (s, false) := by
  simp only [isContainer, Bool.or_eq_false_iff] at hcontainer
  obtain ⟨⟨⟨h1, h2⟩, h3⟩, h4⟩ := hcontainer
  cases hitem : textItem page e.name e.otsl (provWithCharspan page
      (forcedBox.getD (locsBox e.locs page)) (charLength (trim e.text))) (trim e.text) <;>
    simp only [emitElement, h1, h2, h3, h4, Bool.or_self, Bool.false_eq_true, if_false, hitem]

theorem inlinePage_text {item : BaseTextItem} (hitem : textItem page e.name e.otsl
      (provWithCharspan page box (charLength (trim e.text))) (trim e.text) = some item) :
    (inlinePage page raster byteSizeLong warnings box e).withoutImages =
      groupedPage page [textRef] [groupText item] [] [] := by
  rw [inlinePage, emitInlineChild, emitElement_text hcontainer, Option.getD_some, hitem]
  rfl

theorem alonePage_text {item : BaseTextItem} (hitem : textItem page e.name e.otsl
      (provWithCharspan page (locsBox e.locs page) (charLength (trim e.text))) (trim e.text) =
        some item) :
    ((alonePage page raster byteSizeLong warnings e).inGroup box).withoutImages =
      groupedPage page [textRef] [groupText (item.mapProv (.within box))] [] [] := by
  rw [alonePage, emitElement_text hcontainer, Option.getD_none, hitem, ← groupText_moved]
  rfl

end Text

section Picture
variable (hpicture : isPicture e.name = true)
include hpicture

theorem emitElement_picture (s : EmitState) (forcedBox : Option BoundingBox) :
    emitElement page raster byteSizeLong s e forcedBox =
      (emitPicture page raster byteSizeLong s e, true) := by
  have hname : (e.name == ascii "picture" || e.name == ascii "chart") = true := hpicture
  simp only [emitElement, hname, if_true]

theorem inlinePage_picture (hcaption : e.hasCaption = false) :
    (inlinePage page raster byteSizeLong warnings box e).withoutImages =
      groupedPage page [bodyChildRef ⟨.picture, 0⟩] []
        [groupPicture page byteSizeLong (locsBox e.locs page) e] [] := by
  rw [inlinePage, emitInlineChild, emitElement_picture hpicture, emitPicture, emitCaption, hcaption]
  rfl

theorem alonePage_picture (hcaption : e.hasCaption = false) :
    ((alonePage page raster byteSizeLong warnings e).inGroup box).withoutImages =
      groupedPage page [bodyChildRef ⟨.picture, 0⟩] []
        [groupPicture page byteSizeLong box e] [] := by
  rw [alonePage, emitElement_picture hpicture, emitPicture, emitCaption, hcaption]
  rfl

theorem alonePage_picture_texts (hcaption : e.hasCaption = true) :
    ((alonePage page raster byteSizeLong warnings e).inGroup box).withoutImages.texts.length =
      1 := by
  rw [alonePage, emitElement_picture hpicture, emitPicture, emitCaption, hcaption]
  rfl

end Picture

section Table
variable (htable : (e.name == ascii "table" || e.name == ascii "otsl") = true)
include htable

theorem emitElement_table (s : EmitState) (forcedBox : Option BoundingBox) :
    emitElement page raster byteSizeLong s e forcedBox =
      (emitTable page byteSizeLong s e, true) := by
  have hpicture : (e.name == ascii "picture" || e.name == ascii "chart") = false := by
    simp only [Bool.or_eq_true, beq_iff_eq] at htable
    rcases htable with h | h <;> rw [h] <;> decide
  simp only [emitElement, hpicture, htable, Bool.false_eq_true, if_false, if_true]

theorem inlinePage_table (hcaption : e.hasCaption = false) :
    (inlinePage page raster byteSizeLong warnings box e).withoutImages =
      groupedPage page [bodyChildRef ⟨.table, 0⟩] [] []
        [groupTable page byteSizeLong (locsBox e.locs page) e] := by
  rw [inlinePage, emitInlineChild, emitElement_table htable, emitTable, emitCaption, hcaption]
  rfl

theorem alonePage_table (hcaption : e.hasCaption = false) :
    ((alonePage page raster byteSizeLong warnings e).inGroup box).withoutImages =
      groupedPage page [bodyChildRef ⟨.table, 0⟩] [] [] [groupTable page byteSizeLong box e] := by
  rw [alonePage, emitElement_table htable, emitTable, emitCaption, hcaption]
  rfl

theorem alonePage_table_texts (hcaption : e.hasCaption = true) :
    ((alonePage page raster byteSizeLong warnings e).inGroup box).withoutImages.texts.length =
      1 := by
  rw [alonePage, emitElement_table htable, emitTable, emitCaption, hcaption]
  rfl

end Table

end Pages

/-! ## What an element holds besides its text -/

def Part.isCaption : Part → Bool
  | .caption _ => true
  | _ => false

def Part.classTags : Part → List Bytes
  | .classification tag => [tag]
  | _ => []

def Part.otslBody : Part → Bytes
  | .otsl body => body
  | _ => []

def Content.hasCaption (content : Content Part) : Bool :=
  content.rest.any fun part => part.1.isCaption

def Content.classTags (content : Content Part) : List Bytes :=
  content.rest.flatMap fun part => part.1.classTags

def Content.otsl (content : Content Part) : Bytes :=
  content.rest.flatMap fun part => part.1.otslBody

section Read

/-- A field that character data leaves alone. -/
theorem content_read_field {α : Type} (field : Element → α) (add : α → Part → α)
    (hchars : ∀ text e, field (Element.addText text e) = field e)
    (hpart : ∀ (part : Part) e, field (part.read e) = add (field e) part) (content : Content Part)
    (e : Element) : field (content.read Element.addText Part.read e) =
      content.rest.foldl (fun a part => add a part.1) (field e) := by
  have hrest : ∀ (rest : List (Part × Bytes)) (e : Element),
      field (rest.foldl (fun e part => Element.addText part.2 (part.1.read e)) e) =
        rest.foldl (fun a part => add a part.1) (field e) := by
    intro rest
    induction rest with
    | nil => intro e; rfl
    | cons part rest ih =>
      intro e
      rw [List.foldl_cons, ih, hchars, hpart, List.foldl_cons]
  rw [Content.read, hrest, hchars]

theorem content_read_otsl (content : Content Part) (e : Element) :
    (content.read Element.addText Part.read e).otsl = e.otsl ++ content.otsl := by
  have hpart : ∀ (part : Part) (e : Element), (part.read e).otsl = e.otsl ++ part.otslBody := by
    intro part e
    cases part with
    | inline markup =>
        cases markup <;> simp [Part.read, Inline.read, Part.otslBody, Element.addText]
    | caption content =>
      have hread := readCaption_field Element.otsl (fun _ _ => rfl)
        (fun markup _ => by cases markup <;> rfl) content e
      simp [Part.read, Part.otslBody, hread]
    | _ => simp [Part.read, Part.otslBody]
  rw [content_read_field Element.otsl (· ++ ·.otslBody) (fun _ _ => rfl) hpart,
    List.foldl_append_eq_append]
  rfl

theorem content_read_classTags (content : Content Part) (e : Element) :
    (content.read Element.addText Part.read e).classTags = e.classTags ++ content.classTags := by
  have hpart : ∀ (part : Part) (e : Element),
    (part.read e).classTags = e.classTags ++ part.classTags := by
    intro part e
    cases part with
    | inline markup =>
        cases markup <;> simp [Part.read, Inline.read, Part.classTags, Element.addText]
    | caption content =>
      have hread := readCaption_field Element.classTags (fun _ _ => rfl)
        (fun markup _ => by cases markup <;> rfl) content e
      simp [Part.read, Part.classTags, hread]
    | _ => simp [Part.read, Part.classTags]
  rw [content_read_field Element.classTags (· ++ ·.classTags) (fun _ _ => rfl) hpart,
    List.foldl_append_eq_append]
  rfl

theorem content_read_hasCaption (content : Content Part) (e : Element) :
    (content.read Element.addText Part.read e).hasCaption =
      (e.hasCaption || content.hasCaption) := by
  have hpart : ∀ (part : Part) (e : Element),
    (part.read e).hasCaption = (e.hasCaption || part.isCaption) := by
    intro part e
    cases part with
    | inline markup =>
        cases markup <;> simp [Part.read, Inline.read, Part.isCaption, Element.addText]
    | caption content =>
      have hread := readCaption_field Element.hasCaption (fun _ _ => rfl)
        (fun markup _ => by cases markup <;> rfl) content e
      simp [Part.read, Part.isCaption, hread]
    | _ => simp [Part.read, Part.isCaption]
  have hany : ∀ (rest : List (Part × Bytes)) (a : Bool),
      rest.foldl (fun a part => a || part.1.isCaption) a =
        (a || rest.any fun part => part.1.isCaption) := by
    intro rest
    induction rest with
    | nil => intro a; simp
    | cons part rest ih => intro a; rw [List.foldl_cons, ih, List.any_cons, Bool.or_assoc]
  rw [content_read_field Element.hasCaption (· || ·.isCaption) (fun _ _ => rfl) hpart, hany]
  rfl

/-- Without a tag there is no classification. -/
theorem pickClassification_none : pickClassification [] = [] := by decide

/-- A picture with a classification tag has a classification. -/
theorem pickClassification_nil {tags : List Bytes}
    (h : ∀ tag ∈ tags, isClassificationTag tag = true) :
    pickClassification tags = [] ↔ tags = [] := by
  refine ⟨fun hpick => ?_, fun htags => by rw [htags, pickClassification_none]⟩
  cases tags with
  | nil => rfl
  | cons tag tags =>
    obtain ⟨label, hmem, heq⟩ := List.any_eq_true.1 (h tag List.mem_cons_self)
    have hseen : ((tag :: tags).contains label.1) = true := by
      rw [eq_of_beq heq]
      simp
    unfold pickClassification at hpick
    cases hfind : kClassificationLabels.find? fun label => (tag :: tags).contains label.1 with
    | none =>
      have hunseen := List.find?_eq_none.1 hfind label hmem
      exact absurd hseen hunseen
    | some found =>
      have hnonempty : ∀ label ∈ kClassificationLabels, label.2 ≠ [] := by decide
      rw [hfind] at hpick
      exact absurd hpick (hnonempty found (List.mem_of_find?_eq_some hfind))

end Read

/-! ## Equal items -/

section Items
variable {page : PageContext} {byteSizeLong : TableCell → Nat} {b box : BoundingBox}

theorem textItem_prov {tag otsl : Bytes} {prov : ProvenanceItem} {text : Bytes} : ∀ item,
    textItem page tag otsl prov text = some item → item.prov = [prov] := by
  unfold textItem
  iterate 14 refine forall_ite_some (P := fun item : BaseTextItem => item.prov = [prov]) rfl ?_
  intro item h
  split at h
  · cases h
  · cases h
    rfl

/-- A text item takes its provenance as it is. -/
theorem textItem_mapProv (f : ProvenanceItem → ProvenanceItem) (tag otsl : Bytes)
    (prov : ProvenanceItem)
    (text : Bytes) : (textItem page tag otsl prov text).map (·.mapProv f) =
      textItem page tag otsl (f prov) text := by
  unfold textItem
  simp only [apply_ite (Option.map _), Option.map_some, Option.map_none]
  rfl

theorem provWithCharspan_inj {n : Nat}
    (h : provWithCharspan page b n = provWithCharspan page box n) :
    b = box := congrArg ProvenanceItem.bbox h

/-- The chart data of a picture.
mirrors src/mapping/doctags.cpp:395-398 -/
def chartOf (byteSizeLong : TableCell → Nat) (e : Element) : Option (TableData × TableCut) :=
  if e.name == ascii "chart" && !e.otsl.isEmpty then parseOtslGrid byteSizeLong e.otsl else none

theorem chartOf_none {e : Element} : chartOf byteSizeLong e = none ↔
    (e.name = ascii "chart" → parseOtslGrid byteSizeLong e.otsl = none) := by
  have hempty : parseOtslGrid byteSizeLong [] = none := rfl
  unfold chartOf
  cases hbody : e.otsl with
  | nil => simp [hempty]
  | cons c body => simp

/-- A picture with nothing but a description. -/
theorem pictureInfo_plain {e : Element} (hclass : pickClassification e.classTags = [])
    (hchart : chartOf byteSizeLong e = none) : pictureInfo byteSizeLong e =
      ({ description := if (trim e.text).isEmpty then none else some ⟨trim e.text, kCreatedBy⟩ },
        if (trim e.text).isEmpty then []
          else [.description (ascii "description") (trim e.text) kCreatedBy], none) := by
  unfold chartOf at hchart
  unfold pictureInfo
  dsimp only
  rw [hclass, hchart]
  simp

/-- A picture read without its classification tags and its OTSL. -/
theorem groupPicture_iff {child e : Element} (htags : child.classTags = [])
    (hotsl : child.otsl = []) :
    groupPicture page byteSizeLong b child = groupPicture page byteSizeLong box e ↔
      b = box ∧ trim child.text = trim e.text ∧ pickClassification e.classTags = [] ∧
        chartOf byteSizeLong e = none := by
  have hnone : pickClassification child.classTags = [] := by
    rw [htags, pickClassification_none]
  have hchart : chartOf byteSizeLong child = none := by
    rw [chartOf, hotsl]
    simp
  constructor
  · intro h
    have hprov := congrArg PictureItem.prov h
    have hinfo : (pictureInfo byteSizeLong child).1 = (pictureInfo byteSizeLong e).1 :=
      congrArg PictureItem.info h
    simp only [groupPicture, newPicture, List.cons.injEq, and_true] at hprov
    rw [pictureInfo_plain hnone hchart] at hinfo
    simp only [pictureInfo, PictureMeta.mk.injEq, and_true] at hinfo
    obtain ⟨hdescription, hclass, hdata⟩ := hinfo
    refine ⟨provWithCharspan_inj hprov, ?_, ?_, Option.map_eq_none_iff.1 hdata.symm⟩
    · by_cases h1 : trim child.text = [] <;> by_cases h2 : trim e.text = [] <;>
        simp [h1, h2] at hdescription ⊢
      exact hdescription
    · by_contra hne
      simp [hne] at hclass
  · rintro ⟨rfl, htext, hclass, hdata⟩
    unfold groupPicture
    rw [pictureInfo_plain hnone hchart, pictureInfo_plain hclass hdata, htext]

theorem groupTable_iff {child e : Element} :
    groupTable page byteSizeLong b child = groupTable page byteSizeLong box e ↔
      b = box ∧ (tableData byteSizeLong child).map (·.1) =
        (tableData byteSizeLong e).map (·.1) := by
  constructor
  · intro h
    have hprov := congrArg TableItem.prov h
    simp only [groupTable, newTable, List.cons.injEq, and_true] at hprov
    exact ⟨provWithCharspan_inj hprov, congrArg TableItem.data h⟩
  · rintro ⟨rfl, hdata⟩
    unfold groupTable
    rw [hdata]

/-- A text read as another text of another length. -/
theorem groupText_length {tag otsl otsl' text text' : Bytes} {prov prov' : ProvenanceItem}
    {item item' : BaseTextItem} (hitem : textItem page tag otsl prov text = some item)
    (hitem' : textItem page tag otsl' prov' text' = some item')
    (h : groupText item = groupText (item'.mapProv (.within box))) :
    prov.charspan = prov'.charspan := by
  have hspan : ∀ item : BaseTextItem, ((groupText item).prov.map ProvenanceItem.charspan) =
      item.prov.map ProvenanceItem.charspan := by
    intro item
    cases item <;> rfl
  have hwithin : ∀ item : BaseTextItem,
    ((item.mapProv (.within box)).prov.map ProvenanceItem.charspan) =
      item.prov.map ProvenanceItem.charspan := by
    intro item
    cases item <;> exact List.map_map ..
  have hspans := congrArg (fun item => item.prov.map ProvenanceItem.charspan) h
  rw [hspan, hspan, hwithin, textItem_prov item hitem, textItem_prov item' hitem'] at hspans
  simpa using hspans

end Items

/-! ## Which elements survive -/

/-- The table an OTSL body comes to; an empty body leaves none. -/
def otslTable (byteSizeLong : TableCell → Nat) (body : Bytes) : Option TableData :=
  if body.isEmpty then none
  else some (((parseOtslGrid byteSizeLong body).map (·.1)).getD ⟨0, 0, [], []⟩)

/-- Nothing of an element is lost inside `<inline>`: no literal '<' is left open
before a tag that `inner_text` takes out. A picture or a table must also be in
the full page's box, without a caption, classification or OTSL. -/
def TopElement.Survives (page : PageContext) (byteSizeLong : TableCell → Nat) : TopElement → Prop
  | .text _ content => content.parts.apart = true
  | .container name content =>
    sharedBox page (TopElement.container name content).render = fullPageBox page ∧
      content.hasCaption = false ∧
      if name = ascii "table" then content.otsl = []
      else content.apart = true ∧ trim content.shown = trim content.text ∧ content.classTags = [] ∧
        (name = ascii "chart" → parseOtslGrid byteSizeLong content.otsl = none)
  | .otsl body =>
    sharedBox page (TopElement.otsl body).render = fullPageBox page ∧
      otslTable byteSizeLong (innerText (TopElement.otsl body).render) = otslTable byteSizeLong body
  | .group _ _ => False

section Survives
variable {page : PageContext} {raster : PageRaster} {byteSizeLong : TableCell → Nat}
  {warnings : Option (List PageWarning)}

theorem groupedPage_inj {children children' : List Bytes} {texts texts' : List BaseTextItem}
    {pictures pictures' : List PictureItem} {tables tables' : List TableItem}
    (h : groupedPage page children texts pictures tables =
      groupedPage page children' texts' pictures' tables') :
    texts = texts' ∧ pictures = pictures' ∧ tables = tables' :=
  ⟨congrArg Document.texts h, congrArg Document.pictures h, congrArg Document.tables h⟩

/-- The child of a text element, and of a picture or a table. -/
theorem child_reads {element : TopElement} (h : element.single = true) {content : Content Part}
    {owner : Bytes}
    (hclosed : content.closed (Part.closed owner) = true)
    (hinside : element.inside = content.render Part.render) :
    ReadsAs content.apart content.shown (outside element.render) := by
  simp only [TopElement.single, Bool.and_eq_true, Bool.not_eq_true'] at h
  obtain ⟨⟨c, tail, hname, hc⟩, hgt, -⟩ := element.name_open h.1.1.1 h.1.1.2
  have hinner : isInnerTag element.name = true := by
    rw [hname, isInnerTag_cons, hc]
    rfl
  rw [element.render_eq, hinside]
  exact readsAs_content hgt hinner hclosed

section Pages
variable {child e : Element} {box : BoundingBox}

/-- A text survives when nothing but its text is read. -/
theorem inlineText_iff (hname : child.name = e.name) (hcontainer : isContainer e.name = false)
    (hchild : child.otsl = []) (hotsl : e.otsl = [])
    (hsome : isTextTag e.name = true ∨ (trim e.text).isEmpty = false) {ok : Bool} {read : Bytes}
    (hreads : ReadsAs ok e.text read) (htext : child.text = trim read) :
    (inlinePage page raster byteSizeLong warnings box child).withoutImages =
      ((alonePage page raster byteSizeLong warnings e).inGroup box).withoutImages ↔ ok = true := by
  have hitem : ∀ {tag otsl : Bytes} (prov : ProvenanceItem) {text : Bytes},
      isTextTag tag = true ∨ text.isEmpty = false →
        ∃ item, textItem page tag otsl prov text = some item := by
    intro tag otsl prov text hsome
    apply Option.isSome_iff_exists.1
    rw [Option.isSome_iff_ne_none]
    intro hnone
    obtain ⟨htag, hempty⟩ := textItem_none page hnone
    rw [htag, hempty] at hsome
    simp at hsome
  have htrim : trim child.text = trim read := by rw [htext, trim_trim]
  have hcontainer' : isContainer child.name = false := by rw [hname, hcontainer]
  obtain ⟨item, halone⟩ := @hitem e.name e.otsl
    (provWithCharspan page (locsBox e.locs page) (charLength (trim e.text))) (trim e.text) hsome
  cases ok with
  | true =>
    rw [hreads.eq rfl] at htrim
    have hinline := @textItem_mapProv page (.within box) e.name e.otsl
      (provWithCharspan page (locsBox e.locs page) (charLength (trim e.text))) (trim e.text)
    rw [halone, Option.map_some] at hinline
    have hinline' : textItem page child.name child.otsl (provWithCharspan page box
        (charLength (trim child.text))) (trim child.text) = some (item.mapProv (.within box)) := by
      rw [htrim, hname, hchild, ← hotsl]
      exact hinline.symm
    rw [inlinePage_text hcontainer' hinline', alonePage_text hcontainer halone]
    exact iff_of_true rfl rfl
  | false =>
    have hlonger := charLength_trim_lt hreads.sublist (hreads.longer rfl)
    rw [← htrim] at hlonger
    have hsome' : isTextTag child.name = true ∨ (trim child.text).isEmpty = false := by
      refine .inr (List.isEmpty_eq_false_iff.2 fun hnil => ?_)
      rw [hnil] at hlonger
      cases hlonger
    obtain ⟨item', hinline⟩ := @hitem child.name child.otsl
      (provWithCharspan page box (charLength (trim child.text))) (trim child.text) hsome'
    rw [inlinePage_text hcontainer' hinline, alonePage_text hcontainer halone]
    refine iff_of_false (fun h => ?_) (by simp)
    have htexts := (groupedPage_inj h).1
    rw [List.cons.injEq] at htexts
    rw [hname] at hinline
    have hspan := groupText_length hinline halone htexts.1
    simp only [provWithCharspan, Option.some.injEq, Prod.mk.injEq, true_and] at hspan
    omega

/-- A picture survives in the full page's box, without caption, classification
and chart data. -/
theorem inlinePicture_iff (hname : child.name = e.name) (hpicture : isPicture e.name = true)
    (hcaption : child.hasCaption = false) (hlocs : child.locs = []) (htags : child.classTags = [])
    (hotsl : child.otsl = []) :
    (inlinePage page raster byteSizeLong warnings box child).withoutImages =
      ((alonePage page raster byteSizeLong warnings e).inGroup box).withoutImages ↔
      box = fullPageBox page ∧ e.hasCaption = false ∧ trim child.text = trim e.text ∧
        pickClassification e.classTags = [] ∧ chartOf byteSizeLong e = none := by
  have hbox : locsBox child.locs page = fullPageBox page := by rw [hlocs]; rfl
  rw [inlinePage_picture (by rw [hname, hpicture]) hcaption, hbox]
  cases he : e.hasCaption with
  | true =>
    refine iff_of_false (fun h => ?_) (by simp)
    have htexts := @alonePage_picture_texts page raster byteSizeLong warnings box e hpicture he
    rw [← h] at htexts
    cases htexts
  | false =>
    rw [alonePage_picture hpicture he]
    constructor
    · intro h
      have hpictures := (groupedPage_inj h).2.1
      rw [List.cons.injEq, groupPicture_iff htags hotsl] at hpictures
      obtain ⟨⟨hfull, hrest⟩, -⟩ := hpictures
      exact ⟨hfull.symm, rfl, hrest⟩
    · rintro ⟨hfull, -, hrest⟩
      rw [(groupPicture_iff htags hotsl).2 ⟨hfull.symm, hrest⟩]

/-- A table survives in the full page's box, without a caption, with the same
data. -/
theorem inlineTable_iff (hname : child.name = e.name)
    (htable : (e.name == ascii "table" || e.name == ascii "otsl") = true)
    (hcaption : child.hasCaption = false) (hlocs : child.locs = []) :
    (inlinePage page raster byteSizeLong warnings box child).withoutImages =
      ((alonePage page raster byteSizeLong warnings e).inGroup box).withoutImages ↔
      box = fullPageBox page ∧ e.hasCaption = false ∧
        (tableData byteSizeLong child).map (·.1) = (tableData byteSizeLong e).map (·.1) := by
  have hbox : locsBox child.locs page = fullPageBox page := by rw [hlocs]; rfl
  rw [inlinePage_table (by rw [hname, htable]) hcaption, hbox]
  cases he : e.hasCaption with
  | true =>
    refine iff_of_false (fun h => ?_) (by simp)
    have htexts := @alonePage_table_texts page raster byteSizeLong warnings box e htable he
    rw [← h] at htexts
    cases htexts
  | false =>
    rw [alonePage_table htable he]
    constructor
    · intro h
      have htables := (groupedPage_inj h).2.2
      rw [List.cons.injEq, groupTable_iff] at htables
      exact ⟨htables.1.1.symm, rfl, htables.1.2⟩
    · rintro ⟨hfull, -, hdata⟩
      rw [groupTable_iff.2 ⟨hfull.symm, hdata⟩]

end Pages

/-! ## The elements one by one -/

theorem Content.parts_otsl (content : Content Inline) : content.parts.otsl = [] := by
  rw [Content.otsl, Content.parts, List.flatMap_map]
  exact List.flatMap_eq_nil_iff.2 fun _ _ => rfl

theorem text_survives {name : Bytes} {content : Content Inline}
    (h : (TopElement.text name content).single = true) :
    SameInline page raster byteSizeLong warnings (.text name content) ↔
      (TopElement.text name content).Survives page byteSizeLong := by
  have hclosed := h
  simp only [TopElement.single, TopElement.closed, Bool.and_eq_true, Bool.not_eq_true',
    Bool.or_eq_true]
    at hclosed
  obtain ⟨⟨⟨⟨⟨⟨-, hcontainer⟩, hcontent⟩, hsome⟩, -⟩, -⟩, -⟩ := hclosed
  have hreads := child_reads h (content.parts_closed name hcontent) content.parts_render.symm
  have hread := content.parts_read { name := name }
  have htext : (content.read Element.addText Inline.read { name := name }).text =
    content.parts.shown := by
    rw [← hread, content_read_text, content.parts_shown]
    rfl
  have hotsl : (content.read Element.addText Inline.read { name := name }).otsl = [] := by
    rw [← hread, content_read_otsl, content.parts_otsl]
    rfl
  have hname : (content.read Element.addText Inline.read { name := name }).name = name :=
    Scan.content_read_name (by intro text e; rfl) Scan.inline_read_name content _
  rw [← htext] at hreads
  rw [sameInline_iff h rfl]
  exact inlineText_iff hname.symm (by rw [hname, hcontainer]) rfl hotsl (by rw [hname]; exact hsome)
    hreads rfl

/-- What `inner_text` reads is the text, up to whitespace around it. -/
theorem ReadsAs.trim_iff {ok : Bool} {text shown read : Bytes} (h : ReadsAs ok shown read)
    (hsub : text.Sublist shown) :
    trim (trim read) = trim text ↔ ok = true ∧ trim shown = trim text := by
  rw [trim_trim]
  cases ok with
  | true => simp [h.eq rfl]
  | false =>
    refine iff_of_false (fun htrim => ?_) (by simp)
    have hvisible := congrArg visible htrim
    rw [visible_trim, visible_trim] at hvisible
    have hlonger := h.longer rfl
    have hless := charLength_sublist (hsub.filter fun c => !isSpace c)
    rw [visibleLength, visibleLength, hvisible] at hlonger
    exact absurd hlonger (Nat.not_lt.2 hless)

theorem container_survives {name : Bytes} {content : Content Part}
    (h : (TopElement.container name content).single = true) :
    SameInline page raster byteSizeLong warnings (.container name content) ↔
      (TopElement.container name content).Survives page byteSizeLong := by
  have hclosed := h
  simp only [TopElement.single, TopElement.closed, Bool.and_eq_true] at hclosed
  obtain ⟨⟨⟨⟨hkind, hcontent⟩, -⟩, -⟩, -⟩ := hclosed
  have hreads := child_reads h hcontent rfl
  set e := content.read Element.addText Part.read { name := name } with he
  have hname : e.name = name :=
    Scan.content_read_name (by intro text e; rfl) Scan.part_read_name content _
  have htext : e.text = content.text := by
    rw [he, content_read_text]
    rfl
  have hotsl : e.otsl = content.otsl := by
    rw [he, content_read_otsl]
    rfl
  have hcaption : e.hasCaption = content.hasCaption := by
    rw [he, content_read_hasCaption]
    rfl
  have htags : e.classTags = content.classTags := by
    rw [he, content_read_classTags]
    rfl
  have hemission : (TopElement.container name content).emission = .element e :=
    congrArg Emission.element he.symm
  rw [sameInline_iff h hemission, TopElement.Survives]
  by_cases htable : name = ascii "table"
  · have hdata : ∀ e : Element, e.name = ascii "table" →
        ((tableData byteSizeLong e).map (·.1) = none ↔ e.otsl = []) := by
      intro e hname
      have hbare : (e.name == ascii "otsl") = false := by rw [hname]; decide
      cases hbody : e.otsl <;> simp [tableData, hbare, hbody]
    rw [inlineTable_iff hname.symm (by rw [hname, htable]; rfl) rfl rfl, if_pos htable, hcaption,
      (hdata _ (by rw [TopElement.child]; exact htable)).2 rfl, eq_comm (a := none),
      hdata e (by rw [hname, htable]), hotsl]
  · have hpicture : isPicture name = true := by
      rw [Bool.or_eq_true] at hkind
      exact hkind.resolve_right fun hname => htable (eq_of_beq hname)
    have htags' : pickClassification e.classTags = [] ↔ content.classTags = [] := by
      rw [htags]
      refine pickClassification_nil fun tag hmem => ?_
      obtain ⟨part, hpart, htag⟩ := List.mem_flatMap.1 hmem
      have hparts := (Bool.and_eq_true _ _ ▸ hcontent : _ ∧ _).2
      have hclosed := (Bool.and_eq_true _ _ ▸ List.all_eq_true.1 hparts part hpart : _ ∧ _).1
      cases hp : part.1 with
      | classification tag' =>
        rw [hp] at htag hclosed
        rw [Part.classTags, List.mem_singleton] at htag
        rw [htag]
        exact (Bool.and_eq_true _ _ ▸ hclosed : _ ∧ _).2
      | _ => rw [hp] at htag; cases htag
    have hdescription : trim (TopElement.container name content).child.text = trim e.text ↔
        content.apart = true ∧ trim content.shown = trim content.text := by
      rw [htext]
      exact hreads.trim_iff content.text_sublist
    rw [inlinePicture_iff hname.symm (by rw [hname, hpicture]) rfl rfl rfl rfl, if_neg htable,
      hcaption, hdescription, htags', chartOf_none, hname, hotsl, and_assoc]

/-- A bare table reads its OTSL, or the text it has instead. -/
theorem tableData_bare {e : Element} (hname : e.name = ascii "otsl") :
    (tableData byteSizeLong e).map (·.1) =
      otslTable byteSizeLong (if e.otsl.isEmpty then trim e.text else e.otsl) := by
  have hbare : (e.name == ascii "otsl") = true := by rw [hname]; rfl
  simp only [tableData, otslTable, hbare, Bool.true_and]
  generalize (if e.otsl.isEmpty = true then trim e.text else e.otsl) = body
  cases body.isEmpty <;> cases parseOtslGrid byteSizeLong body <;> rfl

theorem otsl_survives {body : Bytes} (h : (TopElement.otsl body).single = true) :
    SameInline page raster byteSizeLong warnings (.otsl body) ↔
      (TopElement.otsl body).Survives page byteSizeLong := by
  have halone : (tableData byteSizeLong { name := ascii "otsl", otsl := body }).map (·.1) =
      otslTable byteSizeLong body := by
    rw [tableData_bare rfl]
    cases body <;> rfl
  have hchild : (tableData byteSizeLong (TopElement.otsl body).child).map (·.1) =
      otslTable byteSizeLong (innerText (TopElement.otsl body).render) := by
    have htext : trim (TopElement.otsl body).child.text = innerText (TopElement.otsl body).render :=
      trim_trim _
    rw [tableData_bare rfl, ← htext]
    rfl
  have htable := @inlineTable_iff page raster byteSizeLong warnings (TopElement.otsl body).child
    { name := ascii "otsl", otsl := body }
      (sharedBox page (TopElement.otsl body).render) rfl rfl rfl rfl
  rw [sameInline_iff h rfl, TopElement.Survives, htable, halone, hchild]
  simp

/-- **An element inside `<inline>` maps like the element alone** exactly when
nothing of it is lost there. -/
theorem inline_same_iff {element : TopElement} (h : element.single = true) :
    SameInline page raster byteSizeLong warnings element ↔ element.Survives page byteSizeLong := by
  cases element with
  | text name content => exact text_survives h
  | container name content => exact container_survives h
  | otsl body => exact otsl_survives h
  | group token body => simp [TopElement.single, TopElement.isGroup] at h

end Survives

/-- A code line with a location survives. -/
def sampleCode : TopElement :=
  .text (ascii "code") { rest := [(.token (ascii "C_"), ascii "a < b > c"),
    (.loc (ascii "7"), ascii "d")] }

theorem inline_same_code :
    SameInline samplePage sampleRaster (fun cell => cell.text.length + 20) none
    sampleCode :=
  (inline_same_iff (by decide : sampleCode.single = true)).2
    (by decide : Content.apart _ = true)

/-- The number of text items a response comes to. -/
def textCount : Except Bytes (Document × Option (List PageWarning)) → Nat
  | .ok (doc, _) => doc.texts.length
  | .error _ => 0

def captionedPicture : TopElement :=
  .container (ascii "picture") { rest := [(.caption { first := ascii "Fig" }, [])] }

/-- A picture loses its caption inside `<inline>`. -/
theorem inline_drops_caption :
    ¬ ∀ (page : PageContext) (raster : PageRaster) (byteSizeLong : TableCell → Nat)
      (warnings : Option (List PageWarning)) (element : TopElement), element.single = true →
      SameInline page raster byteSizeLong warnings element := by
  intro h
  obtain ⟨alone, inlined, _, _, halone, hinlined, hsame⟩ := h samplePage sampleRaster
    (fun cell => cell.text.length + 20) none captionedPicture (by decide)
  have hone : textCount (mapDoctags samplePage sampleRaster (fun cell => cell.text.length + 20) none
      captionedPicture.render) = 1 := by decide
  have hnone :
    textCount (mapDoctags samplePage sampleRaster (fun cell => cell.text.length + 20) none
      captionedPicture.inlined.render) = 0 := by decide
  rw [halone] at hone
  rw [hinlined] at hnone
  have htexts := congrArg (fun doc => doc.texts.length) hsame
  simp only [Document.withoutImages, Document.inGroup, List.length_map] at htexts
  exact absurd (hnone.symm.trans (htexts.trans hone)) (by decide)

end Doctags

end VlmConvert.L3

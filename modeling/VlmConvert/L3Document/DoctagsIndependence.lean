import VlmConvert.L3Document.Concat
import VlmConvert.L3Document.DoctagsElements
import VlmConvert.L3Document.DoctagsTree

/-!
# DocTags: elements one by one

Closed elements that the tokenizer emits one by one map one by one: an
emitter reads nothing of the document but the number of its items, so what it
does behind another document is what it does alone, moved (`Behind`).

Result: `doctags_independent`, two sequences of closed elements map
independently, with one body child and at most one caption per element, if
and only if no bare `<otsl>` in them has a caption or another bare `<otsl>`
right behind it.
-/
namespace VlmConvert.L3.Doctags

open Bytes L2

/-! ## An emitter behind another document -/

/-- `c` is `b`, made behind `a`. -/
def DocBehind (a b c : Document) : Prop :=
  c.withoutImages = a.withoutImages.followedBy b.withoutImages

/-- `c` is `b`, emitted behind `a` and what it ordered. -/
structure Behind (a : Document) (front : List BodyChild) (b c : EmitState) : Prop where
  doc : DocBehind a b.doc c.doc
  order : c.order = front ++ b.order.map (·.shift a.size)

section DocBehind
variable {a b c : Document}

theorem DocBehind.size (h : DocBehind a b c) (kind : BodyChild.Kind) :
    c.size kind = a.size kind + b.size kind := by
  have := congrArg (fun doc => Document.size doc kind) h
  simpa using this

theorem DocBehind.addTexts (h : DocBehind a b c) {item : BaseTextItem} (hnode : item.node = {})
    (hlinks : item.links = []) : DocBehind a (b.addTexts item) (c.addTexts item) := by
  have hc : (c.addTexts item).withoutImages = c.withoutImages.addTexts item := rfl
  have hb : (b.addTexts item).withoutImages = b.withoutImages.addTexts item := rfl
  rw [DocBehind, hc, hb, followedBy_addTexts, item.shift_eq hnode hlinks, ← h]

theorem DocBehind.addPictures (h : DocBehind a b c) {item item' : PictureItem}
    (hitem : item'.withoutImage = item.withoutImage.shift a.size) :
    DocBehind a (b.addPictures item) (c.addPictures item') := by
  have hc : (c.addPictures item').withoutImages =
    c.withoutImages.addPictures item'.withoutImage := by
    simp [Document.withoutImages, Document.addPictures]
  have hb : (b.addPictures item).withoutImages = b.withoutImages.addPictures item.withoutImage := by
    simp [Document.withoutImages, Document.addPictures]
  rw [DocBehind, hc, hb, followedBy_addPictures, Document.withoutImages_size, ← hitem, ← h]

theorem DocBehind.addTables (h : DocBehind a b c) {item item' : TableItem}
    (hitem : item' = item.shift a.size) : DocBehind a (b.addTables item) (c.addTables item') := by
  have hc : (c.addTables item').withoutImages = c.withoutImages.addTables item' := rfl
  have hb : (b.addTables item).withoutImages = b.withoutImages.addTables item := rfl
  rw [DocBehind, hc, hb, followedBy_addTables, Document.withoutImages_size, ← hitem, ← h]

theorem DocBehind.addGroups (h : DocBehind a b c) {item : GroupItem}
    (hitem : item = item.shift a.size) : DocBehind a (b.addGroups item) (c.addGroups item) := by
  have hc : (c.addGroups item).withoutImages = c.withoutImages.addGroups item := rfl
  have hb : (b.addGroups item).withoutImages = b.withoutImages.addGroups item := rfl
  rw [DocBehind, hc, hb, followedBy_addGroups, Document.withoutImages_size, ← hitem, ← h]

theorem DocBehind.addKeyValueItems (h : DocBehind a b c) {item : KeyValueItem}
    (hitem : item = item.shift a.size) :
    DocBehind a (b.addKeyValueItems item) (c.addKeyValueItems item) := by
  have hc : (c.addKeyValueItems item).withoutImages = c.withoutImages.addKeyValueItems item := rfl
  have hb : (b.addKeyValueItems item).withoutImages = b.withoutImages.addKeyValueItems item := rfl
  rw [DocBehind, hc, hb, followedBy_addKeyValueItems, Document.withoutImages_size, ← hitem, ← h]

theorem DocBehind.adopt (h : DocBehind a b c) (group child : BodyChild) :
    DocBehind a (adopt group b child) (adopt (group.shift a.size) c (child.shift a.size)) := by
  have hstamp := stampItem_followedBy a.withoutImages b.withoutImages child (bodyChildRef group)
  have hchild := addItemChild_followedBy a.withoutImages
    (stampItem b.withoutImages child (bodyChildRef group)) group (bodyChildRef child)
  rw [Document.withoutImages_size, shiftRef_bodyChildRef] at hstamp hchild
  unfold Doctags.adopt DocBehind
  rw [← addItemChild_withoutImages, ← addItemChild_withoutImages, ← stampItem_withoutImages,
    ← stampItem_withoutImages, h, hstamp, hchild]

/-- The next item of a kind. -/
theorem DocBehind.next (h : DocBehind a b c) (kind : BodyChild.Kind) :
    (⟨kind, c.size kind⟩ : BodyChild) = BodyChild.shift a.size ⟨kind, b.size kind⟩ := by
  rw [h.size]
  rfl

end DocBehind

section Emitters
variable (page : PageContext) (raster : PageRaster) (byteSizeLong : TableCell → Nat)
variable {a : Document} {front : List BodyChild} {b c : EmitState}

theorem Behind.addText (h : Behind a front b c) {item : BaseTextItem} (hnode : item.node = {})
    (hlinks : item.links = []) : Behind a front (b.addText item) (c.addText item) where
  doc := h.doc.addTexts hnode hlinks
  order := by
    simp only [EmitState.addText, h.order, List.map_append, List.append_assoc]
    exact congrArg (fun r => front ++ (_ ++ [r])) (h.doc.next .text)

theorem behind_emitCaption (h : Behind a front b c) (element : Element) :
    Behind a front (emitCaption page b element).1 (emitCaption page c element).1 ∧
      (emitCaption page c element).2 = (emitCaption page b element).2.map (shiftRef a.size) := by
  unfold emitCaption
  split
  · refine ⟨h.addText rfl rfl, ?_⟩
    simp only [List.map_cons, List.map_nil, shiftRef_bodyChildRef]
    exact congrArg (fun r => [bodyChildRef r]) (h.doc.next .text)
  · exact ⟨h, rfl⟩

theorem behind_emitPicture (h : Behind a front b c) (element : Element) :
    Behind a front (emitPicture page raster byteSizeLong b element)
      (emitPicture page raster byteSizeLong c element) := by
  obtain ⟨hcaption, hrefs⟩ := behind_emitCaption page h element
  unfold emitPicture
  generalize emitCaption page b element = rb at hcaption hrefs ⊢
  generalize emitCaption page c element = rc at hcaption hrefs ⊢
  obtain ⟨sb, captions⟩ := rb
  obtain ⟨sc, captions'⟩ := rc
  simp only at hcaption hrefs
  subst hrefs
  refine ⟨hcaption.doc.addPictures rfl, ?_⟩
  · simp only [hcaption.order, List.map_append, List.append_assoc]
    exact congrArg (fun r => front ++ (_ ++ [r])) (hcaption.doc.next .picture)

theorem behind_emitTable (h : Behind a front b c) (element : Element) :
    Behind a front (emitTable page byteSizeLong b element)
      (emitTable page byteSizeLong c element) := by
  obtain ⟨hcaption, hrefs⟩ := behind_emitCaption page h element
  unfold emitTable
  generalize emitCaption page b element = rb at hcaption hrefs ⊢
  generalize emitCaption page c element = rc at hcaption hrefs ⊢
  obtain ⟨sb, captions⟩ := rb
  obtain ⟨sc, captions'⟩ := rc
  simp only at hcaption hrefs
  subst hrefs
  refine ⟨hcaption.doc.addTables rfl, ?_⟩
  · simp only [hcaption.order, List.map_append, List.append_assoc]
    exact congrArg (fun r => front ++ (_ ++ [r])) (hcaption.doc.next .table)

theorem textItem_links {tag otsl : Bytes} {prov : ProvenanceItem} {text : Bytes} : ∀ item,
    textItem page tag otsl prov text = some item → item.links = [] := by
  unfold textItem
  iterate 14 refine forall_ite_some (P := fun item : BaseTextItem => item.links = []) rfl ?_
  intro item h
  split at h
  · cases h
  · cases h
    rfl

theorem behind_emitElement (h : Behind a front b c) (element : Element)
    (forcedBox : Option BoundingBox) :
    Behind a front (emitElement page raster byteSizeLong b element forcedBox).1
      (emitElement page raster byteSizeLong c element forcedBox).1 := by
  unfold emitElement
  simp only
  split
  · exact behind_emitPicture page raster byteSizeLong h element
  · split
    · exact behind_emitTable page byteSizeLong h element
    · split
      · rename_i item hitem
        exact h.addText (textItem_node page item hitem) (textItem_links page item hitem)
      · exact h

theorem behind_emitKeyValueRegion (h : Behind a front b c) (chunk : Bytes) :
    Behind a front (emitKeyValueRegion page b chunk) (emitKeyValueRegion page c chunk) := by
  refine ⟨h.doc.addKeyValueItems rfl, ?_⟩
  simp only [emitKeyValueRegion, h.order, List.map_append, List.append_assoc]
  exact congrArg (fun r => front ++ (_ ++ [r])) (h.doc.next .keyValue)

theorem behind_listItems (ordered : Bool) (group : BodyChild) (items : List (Bytes × Nat)) :
    ∀ {b c : Document}, DocBehind a b c →
      DocBehind a (items.foldl (emitListItem page ordered group) b)
        (items.foldl (emitListItem page ordered (group.shift a.size)) c) := by
  induction items with
  | nil => intro b c h; exact h
  | cons item items ih =>
    intro b c h
    simp only [List.foldl_cons]
    apply ih
    unfold emitListItem addListItem
    dsimp only
    have hnext := h.next .text
    simp only [Document.size] at hnext
    rw [hnext]
    exact (h.addTexts rfl rfl).adopt group ⟨.text, b.texts.length⟩

theorem behind_emitListGroup (h : Behind a front b c) (chunk : Bytes) (ordered : Bool) :
    Behind a front (emitListGroup page b chunk ordered) (emitListGroup page c chunk ordered) := by
  have hnext := h.doc.next .group
  simp only [Document.size] at hnext
  unfold emitListGroup
  dsimp only
  rw [hnext]
  refine ⟨behind_listItems page ordered _ _ (h.doc.addGroups rfl), ?_⟩
  simp only [h.order, List.map_append, List.append_assoc]
  rfl

/-- What an inline child emits goes under the group. -/
theorem behind_adopted (group : BodyChild) (order : List BodyChild) :
    ∀ {b c : Document}, DocBehind a b c →
    DocBehind a (order.foldl (adopt group) b)
      ((order.map (·.shift a.size)).foldl (adopt (group.shift a.size)) c) := by
  induction order with
  | nil => intro b c h; exact h
  | cons child order ih =>
    intro b c h
    exact ih (h.adopt group child)

theorem behind_inlineChildren (box : BoundingBox) (group : BodyChild) (children : List Element) :
    ∀ {b c : EmitState}, Behind a front b c →
      Behind a front (children.foldl (emitInlineChild page raster byteSizeLong box group) b)
        (children.foldl (emitInlineChild page raster byteSizeLong box (group.shift a.size)) c) := by
  induction children with
  | nil => intro b c h; exact h
  | cons child children ih =>
    intro b c h
    have hempty : Behind a [] { b with order := [] } { c with order := [] } := ⟨h.doc, rfl⟩
    have hchild := behind_emitElement page raster byteSizeLong hempty child (some box)
    have horder := hchild.order
    rw [List.nil_append] at horder
    refine ih ⟨?_, h.order⟩
    unfold emitInlineChild
    dsimp only
    rw [horder]
    exact behind_adopted group _ hchild.doc

theorem behind_emitInlineGroup (h : Behind a front b c) (chunk : Bytes) :
    Behind a front (emitInlineGroup page raster byteSizeLong b chunk)
      (emitInlineGroup page raster byteSizeLong c chunk) := by
  have hnext := h.doc.next .group
  simp only [Document.size] at hnext
  unfold emitInlineGroup
  dsimp only
  rw [hnext]
  apply behind_inlineChildren
  refine ⟨h.doc.addGroups rfl, ?_⟩
  simp only [h.order, List.map_append, List.append_assoc]
  rfl

theorem behind_emit {b c : MapState} (h : Behind a front b.toEmitState c.toEmitState)
    (emission : Emission) :
    Behind a front (emit page raster byteSizeLong b emission).toEmitState
      (emit page raster byteSizeLong c emission).toEmitState := by
  cases emission with
  | element element => exact behind_emitElement page raster byteSizeLong h element none
  | container token chunk =>
    unfold emit
    dsimp only
    split
    · exact behind_emitKeyValueRegion page h chunk
    · split
      · exact behind_emitInlineGroup page raster byteSizeLong h chunk
      · exact behind_emitListGroup page h chunk _

/-- Emissions behind a page are the emissions on their own, moved. -/
theorem behind_emitAll (emissions : List Emission) : ∀ {b c : MapState},
    Behind a front b.toEmitState c.toEmitState →
      Behind a front (emitAll page raster byteSizeLong b emissions).toEmitState
        (emitAll page raster byteSizeLong c emissions).toEmitState := by
  induction emissions with
  | nil => intro b c h; exact h
  | cons emission emissions ih =>
    intro b c h
    exact ih (behind_emit page raster byteSizeLong h emission)

theorem behind_start (s : EmitState) (warnings : Option (List PageWarning)) :
    Behind s.doc s.order { warnings := warnings } s where
  doc := (Document.followedBy_empty _).symm
  order := (List.append_nil _).symm

end Emitters

/-! ## One child per emission -/

/-- An emission that makes an item. -/
def Emission.solid : Emission → Bool
  | .element e => isContainer e.name || isTextTag e.name || !(trim e.text).isEmpty
  | .container _ _ => true

/-- One child more, with at most one caption of its own in front of it. -/
def OneChild (s s' : EmitState) : Prop :=
  ∃ r captions, s'.order = s.order ++ (captions ++ [r]) ∧ s.doc.node r = none ∧
    (captions = [] ∨ r.kind ≠ .text ∧ captions = [⟨.text, s.doc.texts.length⟩]) ∧
    ∀ ref, ref ∈ s'.doc.captions ↔ ref ∈ s.doc.captions ∨ ref ∈ captions.map bodyChildRef

section OneChild
variable (page : PageContext) (raster : PageRaster) (byteSizeLong : TableCell → Nat)

theorem node_size (doc : Document) (kind : BodyChild.Kind) :
    doc.node ⟨kind, doc.size kind⟩ = none := by
  rw [← Option.not_isSome_iff_eq_none, node_isSome]
  exact Nat.lt_irrefl _

theorem ite_some_eq_none {α : Type} {c : Prop} [Decidable c] {a : α} {rest : Option α}
    (h : (if c then some a else rest) = none) : ¬ c ∧ rest = none := by
  split at h
  · cases h
  · rename_i hc
    exact ⟨hc, h⟩

/-- Only an unknown tag without text makes no item. -/
theorem textItem_none {tag otsl : Bytes} {prov : ProvenanceItem} {text : Bytes}
    (h : textItem page tag otsl prov text = none) :
    isTextTag tag = false ∧ text.isEmpty = true := by
  unfold textItem at h
  obtain ⟨h1, h⟩ := ite_some_eq_none h
  obtain ⟨h2, h⟩ := ite_some_eq_none h
  obtain ⟨h3, h⟩ := ite_some_eq_none h
  obtain ⟨h4, h⟩ := ite_some_eq_none h
  obtain ⟨h5, h⟩ := ite_some_eq_none h
  obtain ⟨h6, h⟩ := ite_some_eq_none h
  obtain ⟨h7, h⟩ := ite_some_eq_none h
  obtain ⟨h8, h⟩ := ite_some_eq_none h
  obtain ⟨h9, h⟩ := ite_some_eq_none h
  obtain ⟨h10, h⟩ := ite_some_eq_none h
  obtain ⟨h11, h⟩ := ite_some_eq_none h
  obtain ⟨h12, h⟩ := ite_some_eq_none h
  obtain ⟨h13, h⟩ := ite_some_eq_none h
  obtain ⟨h14, h⟩ := ite_some_eq_none h
  split at h
  · rename_i hempty
    simp only [Bool.not_eq_true, Bool.or_eq_true, not_or, beq_iff_eq, Bool.and_eq_true] at *
    refine ⟨?_, hempty.1⟩
    simp only [isTextTag, h2, h3, Bool.or_self, Bool.false_or, List.contains_eq_mem,
      decide_eq_false_iff_not, List.mem_cons, List.not_mem_nil, not_or, or_false]
    exact ⟨h1, h4, h5, h6, h7, h8, h9, h10, h11, h12, h13, h14.1, h14.2⟩
  · cases h

theorem emitPicture_oneChild (s : EmitState) (element : Element) :
    OneChild s (emitPicture page raster byteSizeLong s element) := by
  cases hcaption : element.hasCaption with
  | true =>
    refine ⟨⟨.picture, s.doc.pictures.length⟩, [⟨.text, s.doc.texts.length⟩], ?_,
      node_size s.doc .picture, .inr ⟨by simp, rfl⟩, fun ref => ?_⟩
    · simp [emitPicture, emitCaption, hcaption, EmitState.addText, Document.addTexts]
    · simp only [emitPicture, emitCaption, hcaption, if_true, EmitState.addText, Document.captions,
        Document.addPictures, Document.addTexts, List.flatMap_append, List.flatMap_cons,
          List.flatMap_nil,
        List.mem_append, List.map_cons, List.map_nil]
      tauto
  | false =>
    refine ⟨⟨.picture, s.doc.pictures.length⟩, [], ?_, node_size s.doc .picture, .inl rfl,
      fun ref => ?_⟩
    · simp [emitPicture, emitCaption, hcaption]
    · simp [emitPicture, emitCaption, hcaption, Document.captions, Document.addPictures]

theorem emitTable_oneChild (s : EmitState) (element : Element) :
    OneChild s (emitTable page byteSizeLong s element) := by
  cases hcaption : element.hasCaption with
  | true =>
    refine ⟨⟨.table, s.doc.tables.length⟩, [⟨.text, s.doc.texts.length⟩], ?_,
      node_size s.doc .table, .inr ⟨by simp, rfl⟩, fun ref => ?_⟩
    · simp [emitTable, emitCaption, hcaption, EmitState.addText, Document.addTexts]
    · simp only [emitTable, emitCaption, hcaption, if_true, EmitState.addText, Document.captions,
        Document.addTables, Document.addTexts, List.flatMap_append, List.flatMap_cons,
          List.flatMap_nil,
        List.mem_append, List.map_cons, List.map_nil]
      tauto
  | false =>
    refine ⟨⟨.table, s.doc.tables.length⟩, [], ?_, node_size s.doc .table, .inl rfl, fun ref => ?_⟩
    · simp [emitTable, emitCaption, hcaption]
    · simp [emitTable, emitCaption, hcaption, Document.captions, Document.addTables]

theorem emitElement_oneChild (s : EmitState) {element : Element}
    (h : (Emission.element element).solid = true) (forcedBox : Option BoundingBox) :
    OneChild s (emitElement page raster byteSizeLong s element forcedBox).1 ∧
      (emitElement page raster byteSizeLong s element forcedBox).2 = true := by
  unfold emitElement
  dsimp only
  split
  · exact ⟨emitPicture_oneChild page raster byteSizeLong s element, rfl⟩
  · rename_i hpicture
    split
    · exact ⟨emitTable_oneChild page byteSizeLong s element, rfl⟩
    · rename_i htable
      split
      · rename_i item hitem
        exact ⟨⟨⟨.text, s.doc.texts.length⟩, [], rfl, node_size s.doc .text, .inl rfl,
          fun ref => by simp [EmitState.addText, Document.captions, Document.addTexts]⟩, rfl⟩
      · rename_i hnone
        obtain ⟨htag, htext⟩ := textItem_none page hnone
        have hcontainer : isContainer element.name = false := by
          simp only [Bool.not_eq_true] at hpicture htable
          rw [isContainer, Bool.or_assoc (element.name == ascii "picture" || _), hpicture, htable]
          rfl
        rw [Emission.solid, hcontainer, htag, htext] at h
        cases h

/-- What a group makes has no captions. -/
theorem adopt_captions (group : BodyChild) (doc : Document) (child : BodyChild) :
    (adopt group doc child).captions = doc.captions := by
  rw [adopt, addItemChild_captions, stampItem_captions]

theorem listItems_captions (ordered : Bool) (group : BodyChild) (items : List (Bytes × Nat)) :
    ∀ doc : Document, (items.foldl (emitListItem page ordered group) doc).captions =
      doc.captions := by
  induction items with
  | nil => intro doc; rfl
  | cons item items ih =>
    intro doc
    rw [List.foldl_cons, ih, emitListItem, adopt_captions]
    rfl

theorem emitElement_captions (s : EmitState) {element : Element}
    (hcaption : element.hasCaption = false)
    (forcedBox : Option BoundingBox) :
    (emitElement page raster byteSizeLong s element forcedBox).1.doc.captions = s.doc.captions := by
  unfold emitElement
  dsimp only
  split
  · simp [emitPicture, emitCaption, hcaption, Document.captions, Document.addPictures]
  · split
    · simp [emitTable, emitCaption, hcaption, Document.captions, Document.addTables]
    · split <;> rfl

theorem adoptAll_captions (group : BodyChild) (order : List BodyChild) : ∀ doc : Document,
    (order.foldl (adopt group) doc).captions = doc.captions := by
  induction order with
  | nil => intro doc; rfl
  | cons child order ih =>
    intro doc
    rw [List.foldl_cons, ih, adopt_captions]

theorem inlineChildren_captions (box : BoundingBox) (group : BodyChild) (children : List Element) :
    (∀ child ∈ children, child.hasCaption = false) → ∀ s : EmitState,
      (children.foldl (emitInlineChild page raster byteSizeLong box group) s).doc.captions =
        s.doc.captions := by
  induction children with
  | nil => intro _ s; rfl
  | cons child children ih =>
    intro hnone s
    rw [List.foldl_cons, ih fun child hc => hnone child (List.mem_cons_of_mem _ hc)]
    unfold emitInlineChild
    dsimp only
    rw [adoptAll_captions,
      emitElement_captions page raster byteSizeLong _ (hnone child List.mem_cons_self)]

theorem emit_oneChild (s : MapState) {emission : Emission} (h : emission.solid = true) :
    OneChild s.toEmitState (emit page raster byteSizeLong s emission).toEmitState ∧
      (emit page raster byteSizeLong s emission).items = s.items + 1 := by
  cases emission with
  | element element =>
    obtain ⟨hchild, hsome⟩ := emitElement_oneChild page raster byteSizeLong s.toEmitState h none
    refine ⟨hchild, ?_⟩
    unfold emit
    dsimp only
    rw [hsome, if_pos rfl]
  | container token chunk =>
    unfold emit
    dsimp only
    split
    · exact ⟨⟨_, [], rfl, node_size s.doc .keyValue, .inl rfl,
        fun ref => by simp [emitKeyValueRegion, Document.captions, Document.addKeyValueItems]⟩, rfl⟩
    · split
      · refine ⟨⟨⟨.group, s.doc.groups.length⟩, [], ?_, node_size s.doc .group, .inl rfl,
          fun ref => ?_⟩, rfl⟩
        · unfold emitInlineGroup
          dsimp only
          rw [inlineChildren_order]
          rfl
        · unfold emitInlineGroup
          dsimp only
          rw [inlineChildren_captions page raster byteSizeLong _ _ _ (inlineChildren_noCaption _ _)]
          simp [Document.captions, Document.addGroups]
      · refine ⟨⟨⟨.group, s.doc.groups.length⟩, [], rfl, node_size s.doc .group, .inl rfl,
          fun ref => ?_⟩, rfl⟩
        unfold emitListGroup
        dsimp only
        rw [listItems_captions]
        simp [Document.captions, Document.addGroups]

end OneChild

/-! ## The children, emission by emission -/

/-- The order, cut into one segment per emission: a child that is nobody's
caption, with at most one caption in front. -/
structure Segmented (s : EmitState) (segments : List (List BodyChild)) : Prop where
  order : s.order = segments.flatten
  shape : ∀ segment ∈ segments, ∃ r, bodyChildRef r ∉ s.doc.captions ∧
    (segment = [r] ∨ ∃ caption, bodyChildRef caption ∈ s.doc.captions ∧ segment = [caption, r])

theorem Inv.order_mem {doc : Document} {order : List BodyChild} {f : Forest BodyChild}
    (h : Inv doc order f) {r : BodyChild} (hr : r ∈ order) : (doc.node r).isSome = true := by
  rw [h.order] at hr
  exact (h.items r).2 (Forest.mem_nodes.2 ⟨none, Forest.mem_children.1 hr⟩)

theorem Document.Captioned.isSome {doc : Document} (h : doc.Captioned) {r : BodyChild}
    (hr : bodyChildRef r ∈ doc.captions) : (doc.node r).isSome = true := by
  obtain ⟨j, he, hj⟩ := h.named _ hr
  cases bodyChildRef_injective he
  obtain ⟨item, hitem, -⟩ := Option.map_eq_some_iff.1 hj
  rw [node_isSome]
  exact (List.getElem?_eq_some_iff.1 hitem).1

theorem Segmented.step {s s' : EmitState} {f : Forest BodyChild} {segments : List (List BodyChild)}
    (hinv : Inv s.doc s.order f) (h : Segmented s segments) (hone : OneChild s s') :
    ∃ segment, Segmented s' (segments ++ [segment]) := by
  obtain ⟨r, captions, horder, hfresh, hcaptions, hmem⟩ := hone
  refine ⟨captions ++ [r], ?_, fun segment hsegment => ?_⟩
  · rw [horder, h.order]
    simp
  · rcases List.mem_append.1 hsegment with hold | hnew
    · obtain ⟨q, hq, hshape⟩ := h.shape segment hold
      have hqorder : q ∈ s.order := by
        rw [h.order, List.mem_flatten]
        refine ⟨segment, hold, ?_⟩
        rcases hshape with rfl | ⟨caption, -, rfl⟩ <;> simp
      refine ⟨q, fun hin => ?_, ?_⟩
      · -- a new caption is a new item, and `q` was there before
        rcases (hmem _).1 hin with hin | hin
        · exact hq hin
        · rcases hcaptions with rfl | ⟨-, rfl⟩
          · cases hin
          · simp only [List.map_cons, List.map_nil, List.mem_singleton] at hin
            have hsome := hinv.order_mem hqorder
            have hnone : s.doc.node ⟨.text, s.doc.texts.length⟩ = none := node_size s.doc .text
            rw [bodyChildRef_injective hin, hnone] at hsome
            cases hsome
      · rcases hshape with rfl | ⟨caption, hcaption, rfl⟩
        · exact .inl rfl
        · exact .inr ⟨caption, (hmem _).2 (.inl hcaption), rfl⟩
    · rw [List.mem_singleton] at hnew
      subst hnew
      refine ⟨r, fun hin => ?_, ?_⟩
      · rcases (hmem _).1 hin with hin | hin
        · have hsome := Document.Captioned.isSome hinv.captioned hin
          rw [hfresh] at hsome
          cases hsome
        · rcases hcaptions with rfl | ⟨hkind, rfl⟩
          · cases hin
          · simp only [List.map_cons, List.map_nil, List.mem_singleton] at hin
            exact hkind (congrArg BodyChild.kind (bodyChildRef_injective hin))
      · rcases hcaptions with rfl | ⟨-, rfl⟩
        · exact .inl rfl
        · exact .inr ⟨_, (hmem _).2 (.inr (by simp)), rfl⟩

section Run
variable (page : PageContext) (raster : PageRaster) (byteSizeLong : TableCell → Nat)

/-- A run of solid emissions. -/
theorem segmented_emitAll (emissions : List Emission) : (∀ e ∈ emissions, e.solid = true) →
    ∀ {s : MapState} {f : Forest BodyChild} {segments : List (List BodyChild)},
      Inv s.doc s.order f → Segmented s.toEmitState segments →
      (∃ segments', segments'.length = segments.length + emissions.length ∧
        Segmented (emitAll page raster byteSizeLong s emissions).toEmitState segments') ∧
      (emitAll page raster byteSizeLong s emissions).items = s.items + emissions.length := by
  induction emissions with
  | nil => intro _ s f segments _ h; exact ⟨⟨segments, rfl, h⟩, rfl⟩
  | cons emission emissions ih =>
    intro hsolid s f segments hinv h
    obtain ⟨hone, hitems⟩ := emit_oneChild page raster byteSizeLong s (hsolid _ List.mem_cons_self)
    obtain ⟨f', hinv'⟩ := inv_emit page raster byteSizeLong hinv emission
    obtain ⟨segment, hsegment⟩ := h.step hinv hone
    obtain ⟨⟨segments', hlength, hsegments⟩, hitems'⟩ :=
      ih (fun e he => hsolid e (List.mem_cons_of_mem _ he)) hinv' hsegment
    refine ⟨⟨segments', ?_, hsegments⟩, ?_⟩
    · rw [hlength]
      simp only [List.length_append, List.length_cons, List.length_nil]
      omega
    · refine hitems'.trans ?_
      rw [hitems, List.length_cons]
      omega

end Run

/-! ## The emissions of closed elements are solid -/

theorem emission_solid {element : TopElement} (h : element.closed = true) :
    element.emission.solid = true := by
  cases element with
  | text name content =>
    simp only [TopElement.closed, Bool.and_eq_true, Bool.or_eq_true] at h
    have hname : (content.read Element.addText Inline.read { name := name }).name = name :=
      Scan.content_read_name (by intro text e; rfl) Scan.inline_read_name content _
    simp only [TopElement.emission, Emission.solid, hname, Bool.or_eq_true]
    rcases h.2 with htag | htext
    · exact .inl (.inr htag)
    · exact .inr htext
  | container name content =>
    simp only [TopElement.closed, Bool.and_eq_true] at h
    have hname : (content.read Element.addText Part.read { name := name }).name = name :=
      Scan.content_read_name (by intro text e; rfl) Scan.part_read_name content _
    simp only [TopElement.emission, Emission.solid, hname, (container_name h.1).2.1, Bool.true_or]
  | otsl body => rfl
  | group token body => rfl

theorem table_solid {table : Element} (h : table.name = ascii "otsl") :
    (Emission.element table).solid = true := by
  rw [Emission.solid, h]
  rfl

theorem emitted_solid (elements : List TopElement) : ∀ o : Option Element,
    (∀ table, o = some table → table.name = ascii "otsl") → (∀ e ∈ elements, e.closed = true) →
      ∀ e ∈ emitted o elements, e.solid = true := by
  induction elements with
  | nil =>
    intro o ho _ e he
    cases o with
    | none => cases he
    | some table =>
      rw [List.mem_singleton.1 he]
      exact table_solid (ho table rfl)
  | cons element elements ih =>
    intro o ho hclosed
    have hfirst := emission_solid (hclosed element List.mem_cons_self)
    have hrest : ∀ e ∈ elements, e.closed = true :=
      fun e he => hclosed e (List.mem_cons_of_mem _ he)
    cases o with
    | none =>
      have hnone := ih none (by simp) hrest
      cases element with
      | otsl body =>
        simp only [emitted]
        refine ih _ ?_ hrest
        rintro table ⟨⟩
        rfl
      | _ =>
        simp only [emitted, List.mem_cons, forall_eq_or_imp]
        exact ⟨hfirst, hnone⟩
    | some table =>
      simp only [emitted]
      cases hjoin : element.joinTable table with
      | some table' =>
        refine ih _ ?_ hrest
        rintro table'' ⟨⟩
        rw [joinTable_name hjoin, ho table rfl]
      | none =>
        simp only [List.mem_cons, forall_eq_or_imp]
        exact ⟨table_solid (ho table rfl), hfirst, ih none (by simp) hrest⟩

theorem emitted_ne_nil {elements : List TopElement} (h : elements ≠ []) (o : Option Element) :
    emitted o elements ≠ [] := by
  induction elements generalizing o with
  | nil => exact absurd rfl h
  | cons element elements ih =>
    have hsome : ∀ table : Element, emitted (some table) elements ≠ [] := by
      intro table
      cases elements with
      | nil => simp [emitted]
      | cons next elements => exact ih (by simp) _
    cases o with
    | none => cases element <;> simp [emitted, hsome]
    | some table =>
      simp only [emitted]
      split
      · exact hsome _
      · simp

/-! ## Independence -/

/-- The body children are one per element, each with at most one caption in
front. -/
def ChildPerElement (doc : Document) (elements : Nat) : Prop :=
  ∃ segments : List (List Bytes), segments.length = elements ∧
    doc.body.children = segments.flatten ∧
    ∀ segment ∈ segments, ∃ ref, ref ∉ doc.captions ∧
      (segment = [ref] ∨ ∃ caption ∈ doc.captions, segment = [caption, ref])

/-- The children that are nobody's caption count the elements. -/
theorem ChildPerElement.count {doc : Document} {n : Nat} (h : ChildPerElement doc n) :
    (doc.body.children.filter fun ref => decide (ref ∉ doc.captions)).length = n := by
  obtain ⟨segments, rfl, hchildren, hshape⟩ := h
  rw [hchildren]
  clear hchildren
  induction segments with
  | nil => rfl
  | cons segment segments ih =>
    have hrest := ih fun s hs => hshape s (List.mem_cons_of_mem _ hs)
    rw [List.flatten_cons, List.filter_append, List.length_append, hrest, List.length_cons]
    obtain ⟨ref, href, rfl | ⟨caption, hcaption, rfl⟩⟩ := hshape segment List.mem_cons_self
    · simp [href]
      omega
    · simp [href, hcaption]
      omega

section Independent
variable (page : PageContext) (raster : PageRaster) (byteSizeLong : TableCell → Nat)
variable (warnings : Option (List PageWarning))

/-- Two sequences of elements map independently: the page of both is the page
of the first with the second's items behind its own, images aside, and every
element is one body child with at most one caption in front of it. -/
def Independent (first second : List TopElement) : Prop :=
  ∃ a b ab warningsA warningsB warningsAB,
    mapDoctags page raster byteSizeLong warnings (renderAll first) = .ok (a, warningsA) ∧
    mapDoctags page raster byteSizeLong warnings (renderAll second) = .ok (b, warningsB) ∧
    mapDoctags page raster byteSizeLong warnings (renderAll first ++ renderAll second) =
      .ok (ab, warningsAB) ∧
    ab.withoutImages = a.withoutImages.followedBy b.withoutImages ∧
    ChildPerElement ab (first.length + second.length)

/-- The page as the emitters leave it. -/
def emitElements (elements : List TopElement) : MapState :=
  emitAll page raster byteSizeLong { warnings := warnings } (emitted none elements)

theorem finalize_captions (doc : Document) (order : List BodyChild) :
    (finalizeDocument doc page order).captions = doc.captions := by
  have hfold : ∀ (order : List BodyChild) (doc : Document),
      (stampOrder order doc).captions = doc.captions := by
    intro order
    induction order with
    | nil => intro doc; rfl
    | cons child order ih =>
      intro doc
      exact (ih _).trans (stampItem_captions doc child bodyRef)
  exact hfold order (startBody doc page)

/-- Closed elements map, with one child per emission. -/
theorem mapDoctags_render {elements : List TopElement} (hne : elements ≠ [])
    (hclosed : ∀ e ∈ elements, e.closed = true) :
    (∃ warnings', mapDoctags page raster byteSizeLong warnings (renderAll elements) =
      .ok (finalizeDocument (emitElements page raster byteSizeLong warnings elements).doc page
        (emitElements page raster byteSizeLong warnings elements).order, warnings')) ∧
    ChildPerElement
      (finalizeDocument (emitElements page raster byteSizeLong warnings elements).doc page
      (emitElements page raster byteSizeLong warnings elements).order)
      (emitted none elements).length := by
  have hscan : Scan.emissions (renderAll elements) = emitted none elements :=
    scan_render elements none (by simp) hclosed
  have hsolid := emitted_solid elements none (by simp) hclosed
  have hstart : Segmented ({ warnings := warnings } : MapState).toEmitState [] := ⟨rfl, by simp⟩
  obtain ⟨⟨segments, hlength, hsegments⟩, hitems⟩ :=
    segmented_emitAll page raster byteSizeLong _ hsolid inv_init hstart
  obtain ⟨f, hinv⟩ := inv_emitAll page raster byteSizeLong (emitted none elements)
    (s := { warnings := warnings }) inv_init
  have hlt : 0x3C ∈ renderAll elements := by
    obtain ⟨element, elements, rfl⟩ := List.exists_cons_of_ne_nil hne
    rw [renderAll, List.flatMap_cons]
    cases element <;> simp [TopElement.render, openTag]
  refine ⟨?_, segments.map (·.map bodyChildRef), ?_, ?_, ?_⟩
  · have hpos := List.length_pos_iff.2 (emitted_ne_nil hne none)
    have hitems' : (emitElements page raster byteSizeLong warnings elements).items ≠ 0 := by
      rw [emitElements, hitems]
      simp only
      omega
    unfold mapDoctags
    rw [if_neg (not_not.2 hlt)]
    dsimp only
    rw [hscan]
    exact ⟨_, if_neg hitems'⟩
  · rw [List.length_map, hlength]
    simp
  · rw [finalize_children, emitElements, hinv.doc_body, List.nil_append, hsegments.order,
      List.map_flatten]
  · intro segment hsegment
    obtain ⟨segment, hmem, rfl⟩ := List.mem_map.1 hsegment
    obtain ⟨r, hr, hshape⟩ := hsegments.shape segment hmem
    rw [finalize_captions]
    refine ⟨bodyChildRef r, hr, ?_⟩
    rcases hshape with rfl | ⟨caption, hcaption, rfl⟩
    · exact .inl rfl
    · exact .inr ⟨_, hcaption, rfl⟩

variable {page raster byteSizeLong warnings}

theorem separate_of_independent {first second : List TopElement} (hne : first ≠ [])
    (hfirst : ∀ e ∈ first, e.closed = true) (hsecond : ∀ e ∈ second, e.closed = true)
    (h : Independent page raster byteSizeLong warnings first second) :
    Separate (first ++ second) := by
  obtain ⟨a, b, ab, wa, wb, wab, -, -, hab, -, hchild⟩ := h
  have hclosed : ∀ e ∈ first ++ second, e.closed = true := by
    intro e he
    rcases List.mem_append.1 he with he | he
    · exact hfirst e he
    · exact hsecond e he
  obtain ⟨⟨w, hmap⟩, hchild'⟩ := mapDoctags_render page raster byteSizeLong warnings
    (List.append_ne_nil_of_left_ne_nil hne second) hclosed
  rw [renderAll, List.flatMap_append, ← renderAll, ← renderAll, hab] at hmap
  cases hmap
  have hcount := hchild'.count.symm.trans hchild.count
  rw [← List.length_append] at hcount
  exact ((length_emitted (first ++ second) none).2 (by simpa using hcount)).1

theorem independent_of_separate {first second : List TopElement} (hne : first ≠ [])
    (hne' : second ≠ [])
    (hfirst : ∀ e ∈ first, e.closed = true) (hsecond : ∀ e ∈ second, e.closed = true)
    (h : Separate (first ++ second)) :
    Independent page raster byteSizeLong warnings first second := by
  have hclosed : ∀ e ∈ first ++ second, e.closed = true := by
    intro e he
    rcases List.mem_append.1 he with he | he
    · exact hfirst e he
    · exact hsecond e he
  have hsepA : Separate first := h.left_of_append
  have hsepB : Separate second := h.right_of_append
  have heA := emitted_separate (o := none) hsepA (by simp)
  have heB := emitted_separate (o := none) hsepB (by simp)
  have heAB := emitted_separate (o := none) h (by simp)
  have hconcat : emitted none (first ++ second) = emitted none first ++ emitted none second := by
    rw [heA, heB, heAB]
    simp
  obtain ⟨⟨wa, hmapA⟩, -⟩ := mapDoctags_render page raster byteSizeLong warnings hne hfirst
  obtain ⟨⟨wb, hmapB⟩, -⟩ := mapDoctags_render page raster byteSizeLong warnings hne' hsecond
  obtain ⟨⟨wab, hmapAB⟩, hchild⟩ := mapDoctags_render page raster byteSizeLong warnings
    (List.append_ne_nil_of_left_ne_nil hne second) hclosed
  rw [renderAll, List.flatMap_append, ← renderAll, ← renderAll] at hmapAB
  refine ⟨_, _, _, wa, wb, wab, hmapA, hmapB, hmapAB, ?_, ?_⟩
  · have hrun : emitElements page raster byteSizeLong warnings (first ++ second) =
        emitAll page raster byteSizeLong (emitElements page raster byteSizeLong warnings first)
          (emitted none second) := by
      rw [emitElements, hconcat, emitAll, List.foldl_append]
      rfl
    have hbehind := behind_emitAll page raster byteSizeLong (emitted none second)
      (b := { warnings := warnings })
      (behind_start (emitElements page raster byteSizeLong warnings first).toEmitState warnings)
    obtain ⟨f, hinv⟩ := inv_emitAll page raster byteSizeLong (emitted none first)
      (s := { warnings := warnings }) inv_init
    obtain ⟨f', hinv'⟩ := inv_emitAll page raster byteSizeLong (emitted none second)
      (s := { warnings := warnings }) inv_init
    rw [hrun, ← finalize_withoutImages, hbehind.order, hbehind.doc, ← finalize_withoutImages,
      ← finalize_withoutImages, ← Document.withoutImages_size]
    refine finalize_followedBy page (fun r hr => ?_) hinv'.doc_body
    rw [Document.withoutImages_size, ← node_isSome]
    exact hinv.order_mem hr
  · rw [heAB] at hchild
    simpa using hchild

/-- **Elements map independently** exactly when no bare `<otsl>` has a caption
or another bare `<otsl>` right behind it. -/
theorem doctags_independent {first second : List TopElement} (hne : first ≠ []) (hne' : second ≠ [])
    (hfirst : ∀ e ∈ first, e.closed = true) (hsecond : ∀ e ∈ second, e.closed = true) :
    Independent page raster byteSizeLong warnings first second ↔ Separate (first ++ second) :=
  ⟨separate_of_independent hne hfirst hsecond, independent_of_separate hne hne' hfirst hsecond⟩

end Independent

def sampleFirst : List TopElement :=
  [.text (ascii "text") { first := ascii "a", rest := [(.loc (ascii "7"), ascii "b")] },
    .otsl (ascii "<fcel>c<nl>")]

def sampleSecond : List TopElement :=
  [.container (ascii "picture") { rest := [(.classification (ascii "logo"), ascii "d"),
      (.caption { first := ascii "Fig" }, [])] },
    .group (ascii "ordered_list") (ascii "<list_item>e</list_item>")]

theorem doctags_independent_sample : Separate (sampleFirst ++ sampleSecond) ∧
    Independent samplePage sampleRaster (fun cell => cell.text.length + 20) none sampleFirst
      sampleSecond := by
  have hsep : Separate (sampleFirst ++ sampleSecond) := by
    simp [Separate, sampleFirst, sampleSecond, TopElement.isOtsl, TopElement.joins,
      TopElement.isCaption]
  have hfirst : ∀ e ∈ sampleFirst, e.closed = true := by decide
  have hsecond : ∀ e ∈ sampleSecond, e.closed = true := by decide
  exact ⟨hsep,
    (doctags_independent (by simp [sampleFirst]) (by simp [sampleSecond]) hfirst hsecond).2 hsep⟩

/-- The caption behind a bare table becomes the table's own, ahead of it. -/
theorem caption_joins_bare_otsl :
    ¬ Independent samplePage sampleRaster (fun cell => cell.text.length + 20) none
      [.otsl (ascii "<fcel>a<nl>")] [.text (ascii "caption") { first := ascii "b" }] ∧
    (mapDoctags samplePage sampleRaster (fun cell => cell.text.length + 20) none
      (ascii "<otsl><fcel>a<nl></otsl><caption>b</caption>")).toOption.map (·.1.body.children) =
        some [ascii "#/texts/0", ascii "#/tables/0"] := by
  refine ⟨fun h => ?_, by decide⟩
  have hsep := separate_of_independent (by simp) (by decide) (by decide) h
  simp [Separate, TopElement.isOtsl, TopElement.joins, TopElement.isCaption] at hsep

end VlmConvert.L3.Doctags

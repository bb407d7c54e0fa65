import VlmConvert.L3Document.AdjacentCaptions
import VlmConvert.L3Document.PageItems

/-!
# How a writer grows

The mappers drive a `LayoutWriter` in their own control flow and not as one
list of operations. A writer is `InOrder` when its entries are a forest over its
document's items and every item is the page's; it `Grows` when it comes to be
in order with every item it had. Parents and owners are items of the document,
so no history of returned items is needed.

Results:
* `grows_apply`, `has_apply`: an operation on items of the document lets the
  writer grow, and what it returns is an item.
* `finish_wellFormed`: a finished page has its references in a tree, captions
  and footnotes that name text items, and items of the page only.
-/
namespace VlmConvert.L3

open Bytes L2

/-! ## Finished pages -/

/-- What a page fragment is: the references are a tree over its items, captions
and footnotes name text items, every item is the page's, and so is the one page
it holds. -/
structure Document.WellFormed (page : PageContext) (doc : Document) : Prop where
  tree : ∃ created, RefTree doc created ∧ ∀ r, r ∈ created ↔ r.index < doc.size r.kind
  linked : ∀ ref ∈ doc.links, ∃ j, j < doc.texts.length ∧ ref = bodyChildRef ⟨.text, j⟩
  items : doc.OfPage page
  pages : doc.pages = [⟨page.pageNo.toInt32, page.width, page.height⟩]

namespace LayoutWriter

/-- An item of the document. -/
def Has (w : LayoutWriter) (r : BodyChild) : Prop := (w.doc.node r).isSome = true

/-- The body, or an item of the document. -/
def HasParent (w : LayoutWriter) (p : Option BodyChild) : Prop := ∀ r, p = some r → w.Has r

/-- Before `finish`: the entries are a forest over the items, and every item is
the page's. -/
structure InOrder (page : PageContext) (w : LayoutWriter) : Prop where
  tree : ∃ f, Inv w f.nodes f
  items : w.doc.OfPage page
  pages : w.doc.pages = []

/-- `w'` is in order, with every item of `w`. -/
structure Grows (page : PageContext) (w w' : LayoutWriter) : Prop where
  order : w'.InOrder page
  keeps : ∀ {r}, w.Has r → w'.Has r

/-- The items an operation gets are in the document, and captions and footnotes
are text items. -/
def Op.On (w : LayoutWriter) : Op → Prop
  | .text _ _ _ p | .title _ _ p | .heading _ _ _ p | .formula _ _ p | .code _ _ _ p
  | .listItem _ _ _ _ p | .listGroup p | .group _ _ p | .fieldRegion _ p | .inlineGroup p
  | .styledText _ _ _ _ _ p | .picture _ p | .table _ _ p => w.HasParent p
  | .setText ref _ _ _ | .setOrig ref _ | .setContentLayer ref _ => w.Has ref
  | .setHeadingLevel i _ => w.Has ⟨.text, i⟩
  | .linkCaption owner linked | .linkFootnote owner linked =>
    w.Has owner ∧ w.Has linked ∧ linked.kind = .text

section Growth
variable {page : PageContext} {w w' w'' : LayoutWriter}

theorem InOrder.grows (h : w.InOrder page) : Grows page w w := ⟨h, id⟩

theorem Grows.trans (h : Grows page w w') (h' : Grows page w' w'') : Grows page w w'' :=
  ⟨h'.order, fun hr => h'.keeps (h.keeps hr)⟩

theorem Grows.parent {p : Option BodyChild} (h : Grows page w w') (hp : w.HasParent p) :
    w'.HasParent p :=
  fun r hr => h.keeps (hp r hr)

theorem hasParent_none : w.HasParent none := by
  rintro r ⟨⟩

theorem hasParent_some {r : BodyChild} (h : w.Has r) : w.HasParent (some r) := by
  rintro _ ⟨⟩
  exact h

/-- The rule of a loop. -/
theorem grows_foldl {α : Type} {f : LayoutWriter → α → LayoutWriter} (l : List α) :
    ∀ {w : LayoutWriter}, w.InOrder page →
      (∀ a ∈ l, ∀ w', Grows page w w' → Grows page w' (f w' a)) → Grows page w (l.foldl f w) := by
  induction l with
  | nil => exact fun h _ => h.grows
  | cons a l ih =>
    intro w h hf
    have hfirst := hf a List.mem_cons_self w h.grows
    refine hfirst.trans (ih hfirst.order fun b hb w' hw' => ?_)
    exact hf b (List.mem_cons_of_mem a hb) w' (hfirst.trans hw')

theorem has_text {i : Nat} : w.Has ⟨.text, i⟩ ↔ i < w.doc.texts.length := node_isSome w.doc _

theorem inOrder_empty (warnings : Option (List PageWarning)) :
    InOrder page { warnings := warnings } :=
  ⟨⟨Forest.empty, inv_init warnings⟩, ofPage_empty, rfl⟩

/-! ## Operations -/

theorem Op.On.valid {op : Op} (h : op.On w) {returned : List BodyChild}
    (hitems : ∀ r, w.Has r ↔ r ∈ returned) : op.Valid returned := by
  have hparent : ∀ p, w.HasParent p → ∀ q, p = some q → q ∈ returned := fun p hp q hq =>
    (hitems q).1 (hp q hq)
  cases op with
  | setText ref _ _ _ => exact (hitems ref).1 h
  | setOrig ref _ => exact (hitems ref).1 h
  | setContentLayer ref _ => exact (hitems ref).1 h
  | setHeadingLevel i _ => exact (hitems _).1 h
  | linkCaption owner linked => exact ⟨(hitems owner).1 h.1, (hitems linked).1 h.2.1, h.2.2⟩
  | linkFootnote owner linked => exact ⟨(hitems owner).1 h.1, (hitems linked).1 h.2.1, h.2.2⟩
  | _ => exact hparent _ h

theorem Op.On.grows {op : Op} (h : op.On w) (hw : Grows page w w') : op.On w' := by
  cases op with
  | setText ref _ _ _ => exact hw.keeps h
  | setOrig ref _ => exact hw.keeps h
  | setContentLayer ref _ => exact hw.keeps h
  | setHeadingLevel i _ => exact hw.keeps h
  | linkCaption owner linked => exact ⟨hw.keeps h.1, hw.keeps h.2.1, h.2.2⟩
  | linkFootnote owner linked => exact ⟨hw.keeps h.1, hw.keeps h.2.1, h.2.2⟩
  | _ => exact hw.parent h

variable (raster : PageRaster) (byteSizeLong : TableCell → Nat)

section Items
variable (box : Option BoundingBox)

theorem ofPage_fresh (label : DocItemLabel) (body : Bytes) :
    (fillTextBase page label (prov page box (charLength body)) body).prov.length = 1 ∧
      page.Owns (fillTextBase page label (prov page box (charLength body)) body).prov
        (fillTextBase page label (prov page box (charLength body)) body).source :=
  ofPage_textBase label body rfl

theorem ofPage_text (body : Bytes) (p : Option BodyChild) (label : DocItemLabel)
    (h : w.doc.OfPage page) :
    (text page w box body p label).1.doc.OfPage page := by
  refine ofPage_addTexts h ?_
  unfold stampLayer
  split
  · exact ofPage_fresh box label body
  · exact ofPage_fresh box label body

theorem ofPage_code (body languageRaw : Bytes) (p : Option BodyChild) (h : w.doc.OfPage page) :
    (code page w box body p languageRaw).1.doc.OfPage page :=
  ofPage_addTexts h ⟨rfl, page.owns_prov _ _⟩

theorem ofPage_styledItem (body : Bytes) (p : Option BodyChild) (label : DocItemLabel)
    (h : w.doc.OfPage page) : (match label with
      | .title => title page w box body p
      | .sectionHeader => heading page w box body p 1
      | .formula => formula page w box body p
      | .code => code page w box body p []
      | .fieldValue => enterText w (w.doc.addTexts (.fieldValue
          (fillTextBase page label (prov page box (charLength body)) body) (ascii "fillable"))) p
      | _ => text page w box body p label).1.doc.OfPage page := by
  split
  case h_4 => exact ofPage_code box body [] p h
  case h_6 => exact ofPage_text box body p label h
  all_goals exact ofPage_addTexts h (ofPage_fresh box _ body)

theorem ofPage_picture (p : Option BodyChild) (h : w.doc.OfPage page) :
    (picture page raster w box p).1.doc.OfPage page := by
  refine ofPage_addPictures h ⟨rfl, page.owns_prov _ _, ?_⟩
  rintro data ⟨⟩

theorem ofPage_table (cells : List SpanCell) (p : Option BodyChild) (h : w.doc.OfPage page) :
    (table page byteSizeLong w box p cells).1.doc.OfPage page := by
  unfold table
  dsimp only
  split
  · refine ofPage_addTables h ⟨rfl, page.owns_prov _ _, ?_⟩
    rintro data ⟨⟩
    exact inCaps_empty
  · refine ofPage_addTables h ⟨rfl, page.owns_prov _ _, ?_⟩
    rintro data ⟨⟩
    exact fillSpanTable_inCaps byteSizeLong cells

end Items

/-- An edit of a text item that leaves its places and sources alone. -/
theorem ofPage_modifyText {f : BaseTextItem → BaseTextItem} (h : w.doc.OfPage page)
    (hf : ∀ item, item.OfPage page → (f item).OfPage page) (i : Nat) :
    (modifyText w i f).doc.OfPage page :=
  ofPage_modifyTexts h hf i

theorem ofPage_setText (body : Bytes) (ref : BodyChild) (formatting : Option Wire)
    (hyperlink : Bytes)
    (h : w.doc.OfPage page) : (setText w body ref formatting hyperlink).doc.OfPage page := by
  unfold setText
  split
  · exact h
  · refine ofPage_modifyText h (fun item hitem => ?_) _
    have hend : ∀ base : TextItemBase, (base.prov.map (setProvEnd (charLength body))).map
        ProvenanceItem.pageNo = base.prov.map ProvenanceItem.pageNo := by
      intro base
      rw [List.map_map]
      rfl
    split
    · exact hitem
    · exact ofPage_mapBase hitem hend fun _ => rfl

theorem ofPage_setOrig (ref : BodyChild) (orig : Bytes) (h : w.doc.OfPage page) :
    (setOrig w ref orig).doc.OfPage page := by
  unfold setOrig
  split
  · exact h
  · refine ofPage_modifyText h (fun item hitem => ?_) _
    split
    · exact hitem
    · exact ofPage_mapBase hitem (fun _ => rfl) fun _ => rfl

theorem ofPage_setContentLayer (ref : BodyChild) (layer : ContentLayer) (h : w.doc.OfPage page) :
    (setContentLayer w ref layer).doc.OfPage page := by
  unfold setContentLayer
  split
  · refine ofPage_modifyText h (fun item hitem => ?_) _
    split
    · exact hitem
    · exact ofPage_mapBase hitem (fun _ => rfl) fun _ => rfl
  · exact { h with }
  · exact h

/-- A link changes neither the places nor the sources of its owner. -/
theorem ofPage_linkCaption (owner caption : BodyChild) (h : w.doc.OfPage page) :
    (linkCaption w owner caption).doc.OfPage page := by
  unfold linkCaption
  dsimp only
  split
  · refine ofPage_modifyPictures h ?_ _
    exact fun _ hitem => hitem
  · refine ofPage_modifyTables h ?_ _
    exact fun _ hitem => hitem
  · refine ofPage_modifyText h (fun item hitem => ?_) _
    split
    · exact hitem
    · exact hitem
  · exact h

theorem ofPage_linkFootnote (owner footnote : BodyChild) (h : w.doc.OfPage page) :
    (linkFootnote w owner footnote).doc.OfPage page := by
  unfold linkFootnote
  dsimp only
  split
  · refine ofPage_modifyPictures h ?_ _
    exact fun _ hitem => hitem
  · refine ofPage_modifyTables h ?_ _
    exact fun _ hitem => hitem
  · refine ofPage_modifyText h (fun item hitem => ?_) _
    split
    · exact hitem
    · exact hitem
  · exact h

/-- Every operation keeps the items the page's. -/
theorem ofPage_apply (op : Op) (h : w.doc.OfPage page) :
    (apply page raster byteSizeLong w op).1.doc.OfPage page := by
  cases op with
  | text label box body p => exact ofPage_text box body p label h
  | code box body languageRaw p => exact ofPage_code box body languageRaw p h
  | styledText label box body formatting hyperlink p =>
    refine ofPage_modifyTexts (ofPage_styledItem box body p label h) (fun item hitem => ?_) _
    exact ofPage_mapBase hitem (fun _ => rfl) fun _ => rfl
  | listGroup _ | group _ _ _ | inlineGroup _ => exact ofPage_addGroups _ h
  | fieldRegion box p => exact ofPage_addFieldRegions h ⟨rfl, page.owns_prov _ _⟩
  | picture box p => exact ofPage_picture raster box p h
  | table box cells p => exact ofPage_table byteSizeLong box cells p h
  | setText ref body formatting hyperlink => exact ofPage_setText body ref formatting hyperlink h
  | setOrig ref orig => exact ofPage_setOrig ref orig h
  | setHeadingLevel i level =>
    refine ofPage_modifyText h (fun item hitem => ?_) _
    split
    · exact hitem
    · exact hitem
  | setContentLayer ref layer => exact ofPage_setContentLayer ref layer h
  | linkCaption owner caption => exact ofPage_linkCaption owner caption h
  | linkFootnote owner footnote => exact ofPage_linkFootnote owner footnote h
  | title _ _ _ | heading _ _ _ _ | formula _ _ _ | listItem _ _ _ _ _ =>
    exact ofPage_addTexts h (ofPage_fresh _ _ _)

theorem pages_apply (op : Op) :
    (apply page raster byteSizeLong w op).1.doc.pages = w.doc.pages := by
  cases op with
  | text label box body p =>
    rw [apply]
    unfold text stampLayer
    dsimp only
    split
    · rfl
    · rfl
  | styledText label box body formatting hyperlink p =>
    rw [apply]
    unfold styledText
    dsimp only [Prod.map]
    split
    case h_6 =>
      unfold text stampLayer
      dsimp only
      split
      · rfl
      · rfl
    all_goals rfl
  | table box cells p =>
    rw [apply]
    unfold table
    dsimp only
    split
    · rfl
    · rfl
  | setText ref body formatting hyperlink =>
    rw [apply]
    unfold setText
    split
    · rfl
    · rfl
  | setOrig ref orig =>
    rw [apply]
    unfold setOrig
    split
    · rfl
    · rfl
  | setContentLayer ref layer =>
    rw [apply]
    unfold setContentLayer
    split
    all_goals rfl
  | linkCaption owner caption =>
    rw [apply]
    unfold linkCaption
    dsimp only
    split
    all_goals rfl
  | linkFootnote owner footnote =>
    rw [apply]
    unfold linkFootnote
    dsimp only
    split
    all_goals rfl
  | _ => rfl

/-- What an operation makes of a writer in order, and the item it returns. -/
theorem grown_apply {op : Op} (h : w.InOrder page) (hop : op.On w) :
    Grows page w (apply page raster byteSizeLong w op).1 ∧
      ∀ r ∈ (apply page raster byteSizeLong w op).2,
        (apply page raster byteSizeLong w op).1.Has r := by
  obtain ⟨f, hinv⟩ := h.tree
  obtain ⟨f', hinv'⟩ := apply_inv page raster byteSizeLong hinv op (hop.valid hinv.items)
  have hnodes := hinv'.returned
  have hhas : ∀ r, (apply page raster byteSizeLong w op).1.Has r ↔
      w.Has r ∨ r ∈ (apply page raster byteSizeLong w op).2 := by
    intro r
    refine (hinv'.items r).trans ?_
    rw [hnodes, List.mem_append, ← hinv.items r, Option.mem_toList]
    exact Iff.rfl
  refine ⟨⟨⟨⟨f', ?_⟩, ofPage_apply raster byteSizeLong op h.items, ?_⟩,
    fun hr => (hhas _).2 (Or.inl hr)⟩, fun r hr => (hhas r).2 (Or.inr hr)⟩
  · rw [hnodes]
    exact hinv'
  · rw [pages_apply, h.pages]

/-- **An operation lets the writer grow.** -/
theorem grows_apply {op : Op} (h : w.InOrder page) (hop : op.On w) :
    Grows page w (apply page raster byteSizeLong w op).1 :=
  (grown_apply raster byteSizeLong h hop).1

/-- The item an operation returns is in the document. -/
theorem has_apply {op : Op} {r : BodyChild} (h : w.InOrder page) (hop : op.On w)
    (hr : (apply page raster byteSizeLong w op).2 = some r) :
    (apply page raster byteSizeLong w op).1.Has r :=
  (grown_apply raster byteSizeLong h hop).2 r hr

/-- `r` is the writer grown by an item. -/
def Makes (page : PageContext) (w : LayoutWriter) (r : LayoutWriter × BodyChild) : Prop :=
  Grows page w r.1 ∧ r.1.Has r.2

theorem makes_op (op : Op) {r : LayoutWriter × BodyChild} (h : w.InOrder page) (hop : op.On w)
    (hr : apply page raster byteSizeLong w op = Prod.map id some r) : Makes page w r := by
  obtain ⟨hgrows, hhas⟩ := grown_apply raster byteSizeLong h hop
  rw [hr] at hgrows hhas
  exact ⟨hgrows, hhas r.2 rfl⟩

/-- The item of a run is a text item. -/
theorem styledText_kind (box : Option BoundingBox) (body : Bytes) (p : Option BodyChild)
    (label : DocItemLabel) (formatting : Option Wire) (hyperlink : Bytes) :
    (styledText page w box body p label formatting hyperlink).2.kind = .text := by
  unfold styledText
  dsimp only
  split
  all_goals rfl

/-! ## Changes of pictures and tables -/

/-- An edit that keeps the references and the page's items. -/
theorem Edited.grows (hedit : Edited w w' none) (h : w.InOrder page) (hitems : w'.doc.OfPage page)
    (hpages : w'.doc.pages = w.doc.pages) : Grows page w w' := by
  obtain ⟨f, hinv⟩ := h.tree
  refine ⟨⟨⟨f, hedit.inv hinv (by rintro ref ⟨⟩)⟩, hitems, hpages.trans h.pages⟩, fun {r} hr => ?_⟩
  unfold Has
  rw [hedit.node]
  exact hr

/-- A change of one picture that leaves its references and its places alone. -/
theorem grows_pictures {f : PictureItem → PictureItem} (h : w.InOrder page)
    (hnode : ∀ item, (f item).toNode = item.toNode) (hlinks : ∀ item, (f item).links = item.links)
    (hitems : ∀ item, item.OfPage page → (f item).OfPage page) (i : Nat) :
    Grows page w { w with doc := { w.doc with pictures := w.doc.pictures.modify i f } } :=
  (edited_pictures hnode fun item _ hx => Or.inl (hlinks item ▸ hx)).grows h
    (ofPage_modifyPictures h.items hitems i) rfl

theorem grows_tables {f : TableItem → TableItem} (h : w.InOrder page)
    (hnode : ∀ item, (f item).toNode = item.toNode) (hlinks : ∀ item, (f item).links = item.links)
    (hitems : ∀ item, item.OfPage page → (f item).OfPage page) (i : Nat) :
    Grows page w { w with doc := { w.doc with tables := w.doc.tables.modify i f } } :=
  (edited_tables hnode fun item _ hx => Or.inl (hlinks item ▸ hx)).grows h
    (ofPage_modifyTables h.items hitems i) rfl

/-- Warnings and crops are no part of the order. -/
theorem InOrder.congr (h : w.InOrder page) (hdoc : w'.doc = w.doc)
    (hentries : w'.entries = w.entries)
    (hbody : w'.body = w.body) : Grows page w w' := by
  refine Edited.grows ⟨fun r => by rw [hdoc], by rw [hdoc], fun ref href => Or.inl (hdoc ▸ href),
    hentries, hbody⟩ h (hdoc ▸ h.items) (by rw [hdoc])

theorem grows_classifyPicture (h : w.InOrder page) (picture : BodyChild)
    (className createdBy : Bytes) :
    Grows page w (classifyPicture w picture className createdBy) := by
  unfold classifyPicture
  split
  · exact h.grows
  · refine grows_pictures h ?_ ?_ ?_ _
    · exact fun _ => rfl
    · exact fun _ => rfl
    · intro item hitem
      refine ⟨hitem.1, hitem.2.1, fun data hdata => hitem.2.2 data ?_⟩
      simpa [PictureItem.charts] using hdata

theorem grows_setTabularChart (h : w.InOrder page) (picture : BodyChild) (title : Bytes)
    (rows : List (List Bytes)) (createdBy : Bytes) :
    Grows page w (setTabularChart w picture title rows createdBy) := by
  unfold setTabularChart
  split
  · exact h.grows
  · dsimp only
    have hpictures : Grows page w { w with doc := { w.doc with
        pictures := w.doc.pictures.modify picture.index fun item => { item with
          info := { item.info with
            tabularChart :=
              some (if title.isEmpty then (item.info.tabularChart.map Prod.fst).getD []
              else title, (fillTableData rows 1).1)
            chartCreatedBy := if createdBy.isEmpty then item.info.chartCreatedBy else createdBy }
          annotations := item.annotations ++
            [.tabularChart (ascii "tabular_chart_data") title (fillTableData rows 1).1] } } } := by
      refine grows_pictures h ?_ ?_ ?_ _
      · exact fun _ => rfl
      · exact fun _ => rfl
      intro item hitem
      refine ⟨hitem.1, hitem.2.1, fun data hdata => ?_⟩
      have hold : data = (fillTableData rows 1).1 ∨ data ∈ item.charts := by
        simp only [PictureItem.charts, Option.map_some, Option.toList_some, List.filterMap_append,
          List.mem_append, List.mem_singleton, List.filterMap_cons, List.filterMap_nil] at hdata ⊢
        tauto
      rcases hold with rfl | hold
      · exact fillTableData_inCaps rows 1
      · exact hitem.2.2 data hold
    exact hpictures.trans (hpictures.order.congr rfl rfl rfl)

/-! ## Adjacent captions -/

section Adjacent
variable {starts : List Nat} {codeOwners : Bool} {r : BodyChild}

theorem InOrder.has_body (h : w.InOrder page) (hr : r ∈ w.body) : w.Has r := by
  obtain ⟨f, hinv⟩ := h.tree
  rw [hinv.body] at hr
  exact (hinv.items r).2 (Forest.mem_nodes.2 ⟨none, Forest.mem_children.1 hr⟩)

theorem mem_blockItem {i : Nat} (h : blockItem w starts i = some (some r)) : r ∈ w.body := by
  obtain ⟨⟨begin_, end_⟩, -, h⟩ := Option.bind_eq_some_iff.1 h
  dsimp only at h
  split at h
  · cases h
  · obtain ⟨item, hitem, h⟩ := Option.bind_eq_some_iff.1 h
    cases h
    exact List.mem_of_getElem? hitem

theorem mem_neighborOwner {n : Nat} (h : neighborOwner w starts codeOwners n = some (some r)) :
    r ∈ w.body := by
  unfold neighborOwner at h
  split at h
  · cases h
  · obtain ⟨item, hitem, h⟩ := Option.bind_eq_some_iff.1 h
    cases item with
    | none => cases h
    | some owner =>
      obtain ⟨counts, -, h⟩ := Option.bind_eq_some_iff.1 h
      cases counts with
      | false => cases h
      | true =>
        cases h
        exact mem_blockItem hitem

theorem mem_neighborOwners {i : Nat} {owners : List BodyChild}
    (h : neighborOwners w starts codeOwners i = some owners) (hr : r ∈ owners) : r ∈ w.body := by
  obtain ⟨left, hleft, h⟩ := Option.bind_eq_some_iff.1 h
  obtain ⟨right, hright, h⟩ := Option.bind_eq_some_iff.1 h
  cases h
  rcases List.mem_append.1 hr with hr | hr
  · exact mem_neighborOwner (hleft.trans (congrArg some (Option.mem_toList.1 hr)))
  · exact mem_neighborOwner (hright.trans (congrArg some (Option.mem_toList.1 hr)))

theorem text_blockCaption {i : Nat} (h : blockCaption w starts i = some (some r)) :
    r ∈ w.body ∧ r.kind = .text := by
  obtain ⟨item, hitem, h⟩ := Option.bind_eq_some_iff.1 h
  cases item with
  | none => cases h
  | some caption =>
    dsimp only at h
    split at h
    · cases h
    · rename_i hkind
      obtain ⟨label, -, h⟩ := Option.bind_eq_some_iff.1 h
      split at h
      · cases h
      · obtain ⟨text, -, h⟩ := Option.bind_eq_some_iff.1 h
        split at h
        · split at h
          · cases h
          · cases h
            exact ⟨mem_blockItem hitem, not_not.1 hkind⟩
        · cases h

/-- A caption that the pass links is a text item of the body. -/
theorem grows_linkAdjacent {i : Nat} (h : w.InOrder page)
    (hlink : linkAdjacent w starts codeOwners i = some w') : Grows page w w' := by
  have howner : ∀ {owner caption : BodyChild}, w.Has owner → w.Has caption → caption.kind = .text →
      linkOwner w owner caption = some w' → Grows page w w' := by
    intro owner caption ho hc hkind hlink
    unfold linkOwner at hlink
    split at hlink
    · cases hlink
      exact h.grows
    · obtain ⟨linked, -, hlink⟩ := Option.bind_eq_some_iff.1 hlink
      cases linked with
      | true =>
        cases hlink
        exact h.grows
      | false =>
        cases hlink
        have hon : Op.On w (.linkCaption owner caption) := ⟨ho, hc, hkind⟩
        exact grows_apply sampleRaster (fun _ => 0) h hon
  unfold linkAdjacent at hlink
  split at hlink
  · cases hlink
    exact h.grows
  · obtain ⟨caption, hcaption, hlink⟩ := Option.bind_eq_some_iff.1 hlink
    cases caption with
    | none =>
      cases hlink
      exact h.grows
    | some caption =>
      obtain ⟨hbody, hkind⟩ := text_blockCaption hcaption
      obtain ⟨owners, howners, hlink⟩ := Option.bind_eq_some_iff.1 hlink
      split at hlink
      · rename_i owner
        have hmem := mem_neighborOwners howners (List.mem_singleton_self owner)
        exact howner (h.has_body hmem) (h.has_body hbody) hkind hlink
      · cases hlink
        exact h.grows

theorem grows_linkAdjacentCaptions (captionBlocks : List Nat) :
    ∀ {w : LayoutWriter}, w.InOrder page →
    linkAdjacentCaptions starts codeOwners w captionBlocks = some w' → Grows page w w' := by
  induction captionBlocks with
  | nil =>
    intro w h hlink
    cases hlink
    exact h.grows
  | cons i captionBlocks ih =>
    intro w h hlink
    obtain ⟨linked, hfirst, hrest⟩ := Option.bind_eq_some_iff.1 hlink
    have hgrows := grows_linkAdjacent h hfirst
    exact hgrows.trans (ih hgrows.order hrest)

end Adjacent

/-! ## The finished page -/

/-- **A finished page is well formed.** -/
theorem finish_wellFormed {formatName : Bytes} {allowEmpty : Bool}
    {made : Document × Option (List PageWarning)} (h : w.InOrder page)
    (hfinish : finish page raster w formatName allowEmpty = .ok made) : made.1.WellFormed page := by
  obtain ⟨f, hinv⟩ := h.tree
  have hrep := finish_represents page hinv
  have hlinks : (w.entries.foldl stampEntry (finalizeDocument w.doc page w.body)).links =
    w.doc.links := by
    rw [(stampEntries_body _ _).2, finalize_links]
  have hstamp : ∀ (entries : List (BodyChild × Option BodyChild)) (doc : Document),
    doc.OfPage page →
      (entries.foldl stampEntry doc).OfPage page ∧
        (entries.foldl stampEntry doc).pages = doc.pages := by
    intro entries
    induction entries with
    | nil => exact fun _ h => ⟨h, rfl⟩
    | cons entry entries ih =>
      intro doc hdoc
      have hentry : (stampEntry doc entry).OfPage page ∧
        (stampEntry doc entry).pages = doc.pages := by
        unfold stampEntry
        split
        · exact ⟨hdoc, rfl⟩
        · dsimp only
          rw [pages_addItemChild]
          split
          · exact ⟨ofPage_addItemChild _ _ hdoc, rfl⟩
          · exact ⟨ofPage_addItemChild _ _ (ofPage_stampItem _ _ hdoc), pages_stampItem _ _ _⟩
      obtain ⟨hitems, hpages⟩ := ih _ hentry.1
      exact ⟨hitems, hpages.trans hentry.2⟩
  obtain ⟨hitems, hpages⟩ := hstamp w.entries _ (ofPage_finalize w.body h.items)
  unfold finish at hfinish
  split at hfinish
  · cases hfinish
  · cases hfinish
    refine ⟨⟨f.nodes, RefTree.of_represents hrep, fun r => ?_⟩, fun ref href => ?_, hitems,
      hpages.trans (pages_finalize page w.body h.pages)⟩
    · rw [← node_isSome, hrep.items]
    · rw [hlinks] at href
      obtain ⟨j, he, hj⟩ := hinv.links ref href
      exact ⟨j, (node_isSome _ ⟨.text, j⟩).1 ((hrep.items _).2 hj), he⟩

end Growth

end LayoutWriter

end VlmConvert.L3

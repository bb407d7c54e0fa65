import VlmConvert.L3Document.DeepseekEmit
import VlmConvert.L3Document.DoctagsTree
import VlmConvert.L3Document.Html
import VlmConvert.L3Document.WriterGrowth

/-!
# Pages without a layout writer

DocTags, Markdown, HTML, OTSL and plain text fill a document with the builder
functions and stamp it at the end (`src/mapping/builder.h:365-427`). Between
items the document is `Kept`: every item is the page's and captions name text
items. DocTags nests items under groups; the others are `Flat`.

Results: `Flat.wellFormed`, `Doctags.mapDoctags_wellFormed`,
`Markdown.mapMarkdown_wellFormed`, `Html.mapHtml_wellFormed` and
`Deepseek.mapDeepseekOcr_wellFormed`.
-/
namespace VlmConvert.L3

open Bytes L2

/-- A text item of the document. -/
def Document.NamesText (doc : Document) (ref : Bytes) : Prop :=
  ∃ j, j < doc.texts.length ∧ ref = bodyChildRef ⟨.text, j⟩

/-- Between items. -/
structure Document.Kept (page : PageContext) (doc : Document) : Prop where
  items : doc.OfPage page
  pages : doc.pages = []
  linked : ∀ ref ∈ doc.links, doc.NamesText ref

section Rules
variable {page : PageContext} {doc : Document}

theorem kept_empty : ({} : Document).Kept page := ⟨ofPage_empty, rfl, fun _ href => by cases href⟩

theorem kept_addTexts {item : BaseTextItem} (h : doc.Kept page) (hitem : item.OfPage page)
    (hlinks : item.links = []) : (doc.addTexts item).Kept page := by
  refine ⟨ofPage_addTexts h.items hitem, h.pages, fun ref href => ?_⟩
  have hold : ref ∈ doc.links := by
    simpa [Document.links, Document.addTexts, hlinks] using href
  obtain ⟨j, hj, rfl⟩ := h.linked ref hold
  exact ⟨j, by simpa [Document.addTexts] using Nat.lt_succ_of_lt hj, rfl⟩

theorem kept_addPictures {item : PictureItem} (h : doc.Kept page) (hitem : item.OfPage page)
    (hlinks : ∀ ref ∈ item.links, doc.NamesText ref) : (doc.addPictures item).Kept page := by
  refine ⟨ofPage_addPictures h.items hitem, h.pages, fun ref href => ?_⟩
  have hsplit : ref ∈ doc.links ∨ ref ∈ item.links := by
    simp only [Document.links, Document.addPictures, List.flatMap_append, List.flatMap_cons,
      List.flatMap_nil, List.append_nil, List.mem_append] at href ⊢
    tauto
  rcases hsplit with hold | hnew
  · exact h.linked ref hold
  · exact hlinks ref hnew

theorem kept_addTables {item : TableItem} (h : doc.Kept page) (hitem : item.OfPage page)
    (hlinks : ∀ ref ∈ item.links, doc.NamesText ref) : (doc.addTables item).Kept page := by
  refine ⟨ofPage_addTables h.items hitem, h.pages, fun ref href => ?_⟩
  have hsplit : ref ∈ doc.links ∨ ref ∈ item.links := by
    simp only [Document.links, Document.addTables, List.flatMap_append, List.flatMap_cons,
      List.flatMap_nil, List.append_nil, List.mem_append] at href ⊢
    tauto
  rcases hsplit with hold | hnew
  · exact h.linked ref hold
  · exact hlinks ref hnew

theorem kept_addGroups (item : GroupItem) (h : doc.Kept page) : (doc.addGroups item).Kept page :=
  ⟨ofPage_addGroups item h.items, h.pages, h.linked⟩

theorem kept_addKeyValueItems {item : KeyValueItem} (h : doc.Kept page) (hitem : item.OfPage page) :
    (doc.addKeyValueItems item).Kept page :=
  ⟨ofPage_addKeyValueItems h.items hitem, h.pages, h.linked⟩

theorem texts_stampItem (child : BodyChild) (ref : Bytes) :
    (stampItem doc child ref).texts.length = doc.texts.length := by
  unfold stampItem
  split
  · exact List.length_modify _ _ _
  all_goals rfl

theorem texts_addItemChild (parent : BodyChild) (ref : Bytes) :
    (addItemChild doc parent ref).texts.length = doc.texts.length := by
  unfold addItemChild
  split
  case h_5 => exact List.length_modify _ _ _
  all_goals rfl

theorem kept_adopt (group child : BodyChild) (h : doc.Kept page) :
    (Doctags.adopt group doc child).Kept page := by
  refine ⟨ofPage_addItemChild _ _ (ofPage_stampItem _ _ h.items), ?_, fun ref href => ?_⟩
  · exact (pages_addItemChild _ _ _).trans ((pages_stampItem _ _ _).trans h.pages)
  · rw [Doctags.adopt, addItemChild_links, stampItem_links] at href
    obtain ⟨j, hj, rfl⟩ := h.linked ref href
    refine ⟨j, ?_, rfl⟩
    rw [Doctags.adopt, texts_addItemChild, texts_stampItem]
    exact hj

/-- A kept document whose references are those of a forest once they are
stamped. -/
theorem Document.Kept.wellFormed {order : List BodyChild} {f : Forest BodyChild} (h : doc.Kept page)
    (hrep : Represents (finalizeDocument doc page order) f) :
    (finalizeDocument doc page order).WellFormed page := by
  refine ⟨⟨f.nodes, RefTree.of_represents hrep, fun r => by rw [← node_isSome, hrep.items]⟩,
    fun ref href => ?_, ofPage_finalize order h.items, pages_finalize page order h.pages⟩
  rw [finalize_links] at href
  obtain ⟨j, hj, rfl⟩ := h.linked ref href
  refine ⟨j, ?_, rfl⟩
  have hnode : ((finalizeDocument doc page order).node ⟨.text, j⟩).isSome = true := by
    rw [finalize_node]
    have hold := (node_isSome doc ⟨.text, j⟩).2 hj
    split
    · rw [Option.isSome_map, hold]
    · exact hold
  exact (node_isSome _ _).1 hnode

/-! ## Flat pages -/

/-- Texts and tables only, and none is stamped. -/
structure Flat (page : PageContext) (doc : Document) : Prop where
  kept : doc.Kept page
  fresh : ∀ r node, doc.node r = some node → node = {}
  kinds : ∀ r, (doc.node r).isSome = true → r.kind = .text ∨ r.kind = .table
  body : doc.body.children = []

theorem flat_empty : Flat page {} := by
  refine ⟨kept_empty, fun r node h => ?_, fun r h => ?_, rfl⟩
  · obtain ⟨k, i⟩ := r
    cases k <;> simp [Document.node] at h
  · rw [node_isSome] at h
    obtain ⟨k, i⟩ := r
    cases k <;> simp [Document.size] at h

theorem Flat.add {doc' : Document} {r : BodyChild} (h : Flat page doc) (hadds : Adds doc doc' r {})
    (hkind : r.kind = .text ∨ r.kind = .table) (hkept : doc'.Kept page) : Flat page doc' := by
  refine ⟨hkept, fun r' node hnode => ?_, fun r' hsome => ?_,
    (congrArg (fun item : GroupItem => item.children) hadds.body_eq).trans h.body⟩
  · rw [hadds.node_eq] at hnode
    split at hnode
    · exact (Option.some.inj hnode).symm
    · exact h.fresh r' node hnode
  · rw [hadds.node_eq] at hsome
    split at hsome
    · rename_i heq
      rw [heq]
      exact hkind
    · exact h.kinds r' hsome

theorem flat_addTexts {item : BaseTextItem} (h : Flat page doc) (hnode : item.node = {})
    (hitem : item.OfPage page) (hlinks : item.links = []) : Flat page (doc.addTexts item) := by
  have hadds := @adds_texts doc item
  rw [hnode] at hadds
  exact h.add hadds (Or.inl rfl) (kept_addTexts h.kept hitem hlinks)

theorem flat_addTables {item : TableItem} (h : Flat page doc) (hnode : item.toNode = {})
    (hitem : item.OfPage page) (hlinks : item.links = []) : Flat page (doc.addTables item) := by
  have hadds := @adds_tables doc item
  rw [hnode] at hadds
  refine h.add hadds (Or.inr rfl) (kept_addTables h.kept hitem fun ref href => ?_)
  rw [hlinks] at href
  cases href

/-- The order of the body is that of the items. -/
theorem Flat.mem_bodyOrder (h : Flat page doc) (r : BodyChild) :
    r ∈ Markdown.bodyOrder doc ↔ (doc.node r).isSome = true := by
  rw [node_isSome]
  obtain ⟨k, i⟩ := r
  have hkinds := h.kinds ⟨k, i⟩
  rw [node_isSome] at hkinds
  simp only [Markdown.bodyOrder, List.mem_append, List.mem_map, List.mem_range, BodyChild.mk.injEq]
  cases k <;> simp [Document.size] at hkinds ⊢ <;> omega

theorem bodyOrder_nodup (doc : Document) : (Markdown.bodyOrder doc).Nodup := by
  have hkind : ∀ (k : BodyChild.Kind) (n : Nat),
      ((List.range n).map fun i => (⟨k, i⟩ : BodyChild)).Nodup := fun k n =>
    List.nodup_range.map fun i j hij => congrArg BodyChild.index hij
  unfold Markdown.bodyOrder
  refine ((hkind _ _).append (hkind _ _) ?_).append (hkind _ _) ?_
  · simp only [List.disjoint_left, List.mem_map, not_exists, not_and]
    rintro r ⟨i, -, rfl⟩ j - heq
    cases heq
  · simp only [List.disjoint_left, List.mem_append, List.mem_map, not_exists, not_and]
    rintro r (⟨i, -, rfl⟩ | ⟨i, -, rfl⟩) j - heq
    · cases heq
    · cases heq

/-- **A flat page is well formed.** -/
theorem Flat.wellFormed (h : Flat page doc) :
    (finalizeDocument doc page (Markdown.bodyOrder doc)).WellFormed page := by
  have hnode := finalize_node doc page (Markdown.bodyOrder doc)
  have hstamped : ∀ r ∈ Markdown.bodyOrder doc,
      (finalizeDocument doc page (Markdown.bodyOrder doc)).node r =
        some (Node.stamp (bodyChildRef r) bodyRef {}) := by
    intro r hr
    obtain ⟨node, hold⟩ := Option.isSome_iff_exists.1 ((h.mem_bodyOrder r).1 hr)
    rw [hnode, if_pos hr, hold, h.fresh r node hold]
    rfl
  have hitems : ∀ r, ((finalizeDocument doc page (Markdown.bodyOrder doc)).node r).isSome = true ↔
      r ∈ Markdown.bodyOrder doc := by
    intro r
    rw [h.mem_bodyOrder, hnode]
    split
    · rw [Option.isSome_map]
    · exact Iff.rfl
  refine h.kept.wellFormed (f := Forest.flat (Markdown.bodyOrder doc) (bodyOrder_nodup doc)) ?_
  refine ⟨fun r => (hitems r).trans (by rw [Forest.nodes_flat]), fun {r p} hr => ?_,
    fun {p} hp => ?_⟩
  · obtain ⟨hmem, rfl⟩ := Forest.mem_flat.1 hr
    exact ⟨_, hstamped r hmem, rfl, rfl⟩
  · cases p with
    | none =>
      rw [Document.childrenOf, finalize_children, h.body, List.nil_append, Forest.children_flat,
        if_pos rfl]
    | some r =>
      have hr := hstamped r ((hitems r).1 (hp r rfl))
      rw [Document.childrenOf, hr, Forest.children_flat, if_neg (by simp)]
      rfl

/-- A new text item at a place on the page. -/
theorem ofPage_text (label : DocItemLabel) {place : ProvenanceItem} (text : Bytes)
    (hplace : place.pageNo = page.pageNo.toInt32) :
    (BaseTextItem.text (fillTextBase page label place text)).OfPage page :=
  ofPage_textBase label text hplace

theorem flat_addTable {place : ProvenanceItem} {filled : TableData} (h : Flat page doc)
    (hplace : place.pageNo = page.pageNo.toInt32) (hfilled : InCaps filled) :
    Flat page (doc.addTables { newTable page place with data := some filled }) := by
  refine flat_addTables h rfl ⟨rfl, ⟨fun p hp => ?_, rfl⟩, ?_⟩ rfl
  · rw [List.mem_singleton.1 hp]
    exact hplace
  · rintro data ⟨⟩
    exact hfilled

theorem flat_addCode {place : ProvenanceItem} (h : Flat page doc)
    (hplace : place.pageNo = page.pageNo.toInt32) (text languageRaw : Bytes)
    (language : Option CodeLanguageLabel) :
    Flat page (addCode doc page place text languageRaw language) := by
  refine flat_addTexts h rfl ⟨rfl, fun p hp => ?_, rfl⟩ rfl
  rw [List.mem_singleton.1 hp]
  exact hplace

end Rules

/-! ## Markdown -/

namespace Markdown
variable {page : PageContext}

theorem flat_flushParagraph {r : Reader} (h : Flat page r.doc) :
    Flat page (r.flushParagraph page).doc := by
  unfold Reader.flushParagraph
  dsimp only
  split
  · exact h
  · exact flat_addTexts h rfl (ofPage_textBase _ _ rfl) rfl

theorem flat_emitPipeTable {doc : Document} (lines : List Bytes)
    (warnings : Option (List PageWarning))
    (h : Flat page doc) : Flat page (emitPipeTable page lines doc warnings).1 :=
  flat_addTable h rfl (fillTableData_inCaps _ _)

theorem flat_read (n : Nat) :
    ∀ (lines : List Bytes) {r : Reader}, lines.length ≤ n → Flat page r.doc →
    Flat page (r.read page lines).doc := by
  induction n with
  | zero =>
    intro lines r hn h
    obtain rfl := List.length_eq_zero_iff.1 (Nat.le_zero.1 hn)
    rw [Reader.read]
    exact flat_flushParagraph h
  | succ n ih =>
    intro lines r hn h
    have hflushed := flat_flushParagraph h
    cases lines with
    | nil =>
      rw [Reader.read]
      exact hflushed
    | cons line rest =>
      have hfence := (rest.dropWhile_suffix fun line => !startsFence line).length_le
      have hpipe := (rest.dropWhile_suffix startsPipe).length_le
      rw [List.length_cons] at hn
      rw [Reader.read]
      dsimp only
      split
      · refine ih _ ?_ (flat_addCode hflushed rfl _ _ _)
        rw [List.length_drop]
        omega
      · split
        · exact ih _ (by omega) (flat_addTexts hflushed rfl (ofPage_textBase _ _ rfl) rfl)
        · split
          · exact ih _ (by omega) (flat_emitPipeTable _ (r.flushParagraph page).warnings hflushed)
          · split
            · exact ih _ (by omega) (flat_addTexts hflushed rfl (ofPage_textBase _ _ rfl) rfl)
            · split
              · exact ih _ (by omega) hflushed
              · exact ih _ (by omega) h

/-- **A Markdown page is well formed.** -/
theorem mapMarkdown_wellFormed {text : Bytes} {warnings : Option (List PageWarning)}
    {made : Document × Option (List PageWarning)} (h : mapMarkdown page text warnings = .ok made) :
    made.1.WellFormed page := by
  unfold mapMarkdown at h
  split at h
  · cases h
  · dsimp only at h
    split at h
    · cases h
    · cases h
      exact (flat_read _ _ (Nat.le_refl _) flat_empty).wellFormed

end Markdown

/-! ## HTML -/

namespace Html
variable {page : PageContext}

theorem flat_emitBlock {r : Reader} (block : L1.Html.Found) (h : Flat page r.doc) :
    Flat page (emitBlock page r block).doc := by
  have htext := fun {item : BaseTextItem} => @flat_addTexts page r.doc item h
  unfold emitBlock
  dsimp only
  split
  · exact h
  · split
    · exact htext rfl (ofPage_textBase _ _ rfl) rfl
    · split
      · exact htext rfl (ofPage_textBase _ _ rfl) rfl
      · split
        · exact flat_addCode h rfl _ _ _
        · split
          · exact flat_addTable h rfl (fillTableData_inCaps _ _)
          · exact htext rfl (ofPage_textBase _ _ rfl) rfl

theorem flat_emitBlocks (blocks : List L1.Html.Found) : ∀ {r : Reader}, Flat page r.doc →
    Flat page (blocks.foldl (emitBlock page) r).doc := by
  induction blocks with
  | nil => exact fun h => h
  | cons block blocks ih => exact fun h => ih (flat_emitBlock block h)

/-- **An HTML page is well formed.** -/
theorem mapHtml_wellFormed {text : Bytes} {warnings : Option (List PageWarning)}
    {made : Document × Option (List PageWarning)} (h : mapHtml page text warnings = .ok made) :
    made.1.WellFormed page := by
  unfold mapHtml at h
  dsimp only at h
  split at h
  · cases h
  · cases h
    exact (flat_emitBlocks _ flat_empty).wellFormed

end Html

/-! ## DocTags -/

namespace Doctags
variable {page : PageContext} {raster : PageRaster} {byteSizeLong : TableCell → Nat}

theorem kept_addText {s : EmitState} {item : BaseTextItem} (h : s.doc.Kept page)
    (hitem : item.OfPage page) (hlinks : item.links = []) : (s.addText item).doc.Kept page :=
  kept_addTexts h hitem hlinks

/-- A caption is a text item. -/
theorem kept_emitCaption {s : EmitState} (element : Element) (h : s.doc.Kept page) :
    (emitCaption page s element).1.doc.Kept page ∧
      ∀ ref ∈ (emitCaption page s element).2, (emitCaption page s element).1.doc.NamesText ref := by
  unfold emitCaption
  split
  · refine ⟨kept_addText h (ofPage_textBase _ _ rfl) rfl, fun ref href => ?_⟩
    refine ⟨s.doc.texts.length, ?_, List.mem_singleton.1 href⟩
    simp [EmitState.addText, Document.addTexts]
  · exact ⟨h, fun _ href => by cases href⟩

theorem pictureInfo_inCaps (element : Element) {item : PictureItem}
    (hinfo : item.info = (pictureInfo byteSizeLong element).1)
    (hannotations : item.annotations = (pictureInfo byteSizeLong element).2.1) :
    ∀ data ∈ item.charts, InCaps data := by
  intro data hdata
  unfold PictureItem.charts at hdata
  rw [hinfo, hannotations] at hdata
  unfold pictureInfo at hdata
  dsimp only at hdata
  cases hchart : (if (element.name == ascii "chart" && !element.otsl.isEmpty) = true then
      parseOtslGrid byteSizeLong element.otsl else none) with
  | none =>
    rw [hchart] at hdata
    exfalso
    revert hdata
    split_ifs <;> simp
  | some chart =>
    rw [hchart] at hdata
    have heq : data = chart.1 := by
      revert hdata
      split_ifs <;> simp
    split at hchart
    · rw [heq]
      exact parseOtslGrid_inCaps hchart
    · cases hchart

theorem kept_emitPicture {s : EmitState} (element : Element) (h : s.doc.Kept page) :
    (emitPicture page raster byteSizeLong s element).doc.Kept page := by
  obtain ⟨hkept, hcaptions⟩ := kept_emitCaption element h
  unfold emitPicture
  dsimp only
  generalize emitCaption page s element = captioned at hkept hcaptions ⊢
  refine kept_addPictures hkept ⟨rfl, page.owns_prov _ _, pictureInfo_inCaps element rfl rfl⟩ ?_
  intro ref href
  exact hcaptions ref (by simpa [PictureItem.links, newPicture] using href)

theorem kept_emitTable {s : EmitState} (element : Element) (h : s.doc.Kept page) :
    (emitTable page byteSizeLong s element).doc.Kept page := by
  obtain ⟨hkept, hcaptions⟩ := kept_emitCaption element h
  have hcaps : ∀ data ∈ (tableData byteSizeLong element).map (·.1), InCaps data := by
    unfold tableData
    generalize (if (element.name == ascii "otsl" && element.otsl.isEmpty) = true then
      trim element.text
      else element.otsl) = body
    dsimp only
    split
    · rintro data ⟨⟩
    · rintro data ⟨⟩
      cases hgrid : parseOtslGrid byteSizeLong body with
      | none => exact inCaps_empty
      | some filled => exact parseOtslGrid_inCaps hgrid
  unfold emitTable
  dsimp only
  generalize emitCaption page s element = captioned at hkept hcaptions ⊢
  refine kept_addTables hkept ⟨rfl, page.owns_prov _ _, hcaps⟩ fun ref href => ?_
  exact hcaptions ref (by simpa [TableItem.links, newTable] using href)

/-- The text items of elements link nothing. -/
theorem textItem_kept (tag otsl : Bytes) {place : ProvenanceItem} (text : Bytes)
    (hplace : place.pageNo = page.pageNo.toInt32) :
    ∀ item, textItem page tag otsl place text = some item → item.OfPage page ∧ item.links = [] := by
  have hbase : ∀ label, (fillTextBase page label place text).prov.length = 1 ∧
      page.Owns (fillTextBase page label place text).prov
        (fillTextBase page label place text).source :=
    fun label => ofPage_textBase label text hplace
  have hcode : (codeItem page place text).OfPage page ∧ (codeItem page place text).links = [] := by
    refine ⟨⟨rfl, fun p hp => ?_, rfl⟩, rfl⟩
    rw [List.mem_singleton.1 hp]
    exact hplace
  unfold textItem
  iterate 4 refine forall_ite_some ⟨hbase .text, rfl⟩ ?_
  refine forall_ite_some hcode ?_
  iterate 9 refine forall_ite_some ⟨hbase .text, rfl⟩ ?_
  intro item hitem
  split at hitem
  · cases hitem
  · cases hitem
    exact ⟨hbase .text, rfl⟩

theorem kept_emitElement {s : EmitState} (element : Element) (box : Option BoundingBox)
    (h : s.doc.Kept page) :
    (emitElement page raster byteSizeLong s element box).1.doc.Kept page := by
  unfold emitElement
  dsimp only
  split
  · exact kept_emitPicture element h
  · split
    · exact kept_emitTable element h
    · split
      · rename_i item hitem
        obtain ⟨hof, hlinks⟩ := textItem_kept _ _ _ rfl item hitem
        exact kept_addText h hof hlinks
      · exact h

theorem kept_foldl {α σ : Type} {f : σ → α → σ} {doc : σ → Document}
    (hf : ∀ s a, (doc s).Kept page → (doc (f s a)).Kept page) (l : List α) :
    ∀ s, (doc s).Kept page → (doc (l.foldl f s)).Kept page := by
  induction l with
  | nil => exact fun _ h => h
  | cons a l ih => exact fun s h => ih (f s a) (hf s a h)

theorem regionCells_ofPage (n : Nat) : ∀ (rest : Bytes), ∀ cell ∈ regionCells page n rest,
    ∀ place ∈ cell.1.prov, place.pageNo = page.pageNo.toInt32 := by
  induction n with
  | zero => exact fun _ cell hcell => by cases hcell
  | succ n ih =>
    intro rest cell hcell
    rw [regionCells] at hcell
    split at hcell
    · cases hcell
    · split at hcell
      · cases hcell
      · dsimp only at hcell
        split at hcell
        · exact ih _ cell hcell
        · split at hcell
          · exact ih _ cell hcell
          · rcases List.mem_cons.1 hcell with rfl | hcell
            · intro place hplace
              dsimp only at hplace
              split at hplace
              · cases hplace
                rfl
              · cases hplace
            · exact ih _ cell hcell

theorem kept_emitKeyValueRegion {s : EmitState} (chunk : Bytes) (h : s.doc.Kept page) :
    (emitKeyValueRegion page s chunk).doc.Kept page := by
  have hregion : ∀ (locs : List Int), ∀ place ∈ (if locs.length = 4 then
      [provWithCharspan page (locsBox locs page) 0] else []),
        place.pageNo = page.pageNo.toInt32 := by
    intro locs place hplace
    split at hplace
    · rw [List.mem_singleton.1 hplace]
      rfl
    · cases hplace
  refine kept_addKeyValueItems h ⟨⟨hregion _, rfl⟩, fun cell hcell => ?_⟩
  · obtain ⟨made, hmade, rfl⟩ := List.mem_map.1 hcell
    exact regionCells_ofPage _ _ made hmade

theorem kept_emitListGroup {s : EmitState} (chunk : Bytes) (ordered : Bool) (h : s.doc.Kept page) :
    (emitListGroup page s chunk ordered).doc.Kept page := by
  unfold emitListGroup
  refine @kept_foldl page _ _ _ (fun doc : Document => doc) (fun doc item hdoc => ?_) _ _
    (kept_addGroups _ h)
  exact kept_adopt _ _ (kept_addTexts hdoc (ofPage_textBase _ _ rfl) rfl)

theorem kept_emitInlineGroup {s : EmitState} (chunk : Bytes) (h : s.doc.Kept page) :
    (emitInlineGroup page raster byteSizeLong s chunk).doc.Kept page := by
  unfold emitInlineGroup
  refine @kept_foldl page _ _ _ EmitState.doc (fun s child hs => ?_) _ _ (kept_addGroups _ h)
  refine @kept_foldl page _ _ _ (fun doc : Document => doc)
    (fun doc ref hdoc => kept_adopt _ _ hdoc) _ _ ?_
  exact kept_emitElement child _ hs

theorem kept_emit (s : MapState) (emission : Emission) (h : s.doc.Kept page) :
    (emit page raster byteSizeLong s emission).doc.Kept page := by
  unfold emit
  split
  · exact kept_emitElement _ none h
  · split
    · exact kept_emitKeyValueRegion _ h
    · split
      · exact kept_emitInlineGroup _ h
      · exact kept_emitListGroup _ _ h

/-- **A DocTags page is well formed.** -/
theorem mapDoctags_wellFormed {warnings : Option (List PageWarning)} {text : Bytes}
    {made : Document × Option (List PageWarning)}
    (h : mapDoctags page raster byteSizeLong warnings text = .ok made) :
    made.1.WellFormed page := by
  have hstart : Inv (⟨{ warnings := warnings }, 0⟩ : MapState).doc
      (⟨{ warnings := warnings }, 0⟩ : MapState).order Forest.empty := inv_init
  obtain ⟨f, hinv⟩ := inv_emitAll page raster byteSizeLong (Scan.emissions text) hstart
  have hkept :=
    @kept_foldl page _ _ (emit page raster byteSizeLong) (fun s : MapState => s.doc) kept_emit
    (Scan.emissions text) ⟨{ warnings := warnings }, 0⟩ kept_empty
  unfold mapDoctags at h
  split at h
  · cases h
  · dsimp only at h
    split at h
    · cases h
    · cases h
      exact hkept.wellFormed (finalize_represents page hinv)

end Doctags

/-! ## DeepSeek-OCR -/

namespace Deepseek
open LayoutWriter hiding Grows
variable {page : PageContext} {raster : PageRaster} {byteSizeLong : TableCell → Nat}
    {w : LayoutWriter}

theorem makes_emitItem (block : GroundedBlock) (h : w.InOrder page) :
    Makes page w (emitItem page raster byteSizeLong w block) := by
  unfold emitItem
  split
  · exact makes_op raster byteSizeLong (.picture (some block.box) none) h hasParent_none rfl
  · split
    · exact makes_op raster byteSizeLong (.table (some block.box) _ none) h hasParent_none rfl
    · split
      · exact makes_op raster byteSizeLong (.title (some block.box) _ none) h hasParent_none rfl
      · split
        · exact makes_op raster byteSizeLong
            (.heading _ (some block.box) _ none) h hasParent_none rfl
        · exact makes_op raster byteSizeLong (.text _ (some block.box) _ none) h hasParent_none rfl

theorem grows_emitCaption (label : Bytes) (next : Option GroundedBlock) (h : w.InOrder page) :
    LayoutWriter.Grows page w (emitCaption page w label next).1 ∧
      ∀ caption ∈ (emitCaption page w label next).2,
        (emitCaption page w label next).1.Has caption ∧ caption.kind = .text := by
  unfold emitCaption
  split
  · split
    · rename_i next _
      have hmade : Makes page w (text page w (some next.box) next.content none .caption) :=
        makes_op sampleRaster (fun _ => 0)
          (.text .caption (some next.box) next.content none) h hasParent_none rfl
      refine ⟨hmade.1, ?_⟩
      rintro caption ⟨⟩
      exact ⟨hmade.2, rfl⟩
    · exact ⟨h.grows, by rintro caption ⟨⟩⟩
  · exact ⟨h.grows, by rintro caption ⟨⟩⟩

theorem grows_emitBlock (blocks : List GroundedBlock) (idx : Nat) (h : w.InOrder page) :
    LayoutWriter.Grows page w (emitBlock page raster byteSizeLong blocks w idx) := by
  unfold emitBlock
  split
  · exact h.grows
  · rename_i block _
    obtain ⟨hcaption, hheld⟩ := @grows_emitCaption page w block.label blocks[idx + 1]? h
    dsimp only
    generalize isWritten block.label _ = written
    generalize emitCaption page w block.label blocks[idx + 1]? = captioned at hcaption hheld ⊢
    cases written with
    | true => exact hcaption
    | false =>
      have hitem := @makes_emitItem page raster byteSizeLong captioned.1 block hcaption.order
      have hgrown := hcaption.trans hitem.1
      generalize emitItem page raster byteSizeLong captioned.1 block = item at hitem hgrown ⊢
      rw [if_neg Bool.false_ne_true]
      split
      · rename_i caption hmade
        obtain ⟨hhas, hkind⟩ := hheld caption hmade
        have hon : Op.On item.1 (.linkCaption item.2 caption) :=
          ⟨hitem.2, hitem.1.keeps hhas, hkind⟩
        exact hgrown.trans (grows_apply raster byteSizeLong hgrown.order hon)
      · exact hgrown

/-- **A DeepSeek-OCR page is well formed.** -/
theorem mapDeepseekOcr_wellFormed {fromChars : Bytes → Option (Float × Bytes)} {text : Bytes}
    {warnings : Option (List PageWarning)} {made : Document × Option (List PageWarning)}
    (h : mapDeepseekOcr page raster byteSizeLong fromChars text warnings = .ok made) :
    made.1.WellFormed page := by
  refine finish_wellFormed raster (grows_foldl _ (inOrder_empty warnings) ?_).order h
  exact fun idx _ w' hw' => grows_emitBlock _ idx hw'.order

end Deepseek

end VlmConvert.L3

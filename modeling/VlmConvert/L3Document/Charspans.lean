import VlmConvert.L3Document.LayoutWriter

/-!
# Character spans

Every text item of a fragment has a provenance whose charspan is `[0, n)` for
the `n` characters of its text. The constructors of `LayoutWriter` set it so;
`set_text` puts another text in place, and moves the end of the span with it
(`src/mapping/layout.cpp:573-576`) for every variant but `CodeItem`, whose
branch returns before the span is moved.

Result: `charspans_iff`, the spans follow the texts through a whole run
exactly when no `set_text` gives a code item a text of another length.
-/
namespace VlmConvert.L3

open Bytes L2

/-- The item has a provenance, and its charspan is that of the text. -/
def BaseTextItem.Spanned (item : BaseTextItem) : Prop :=
  item.prov ≠ [] ∧ ∀ prov ∈ item.prov, prov.charspan = some (0, charLength (itemText item))

/-- Every text item's charspan is that of the text it holds. -/
def Document.SpansFollow (doc : Document) : Prop := ∀ item ∈ doc.texts, item.Spanned

namespace LayoutWriter

section Runs
variable (page : PageContext) (raster : PageRaster) (byteSizeLong : TableCell → Nat)

/-- A `set_text` on a code item gives it a text as long as the one it has. -/
def Op.KeepsSpan (w : LayoutWriter) : Op → Prop
  | .setText ref body _ _ =>
      ∀ item, ref.kind = .text → w.doc.texts[ref.index]? = some (.code item) →
      charLength body = charLength item.text
  | _ => True

/-- Every step of the run keeps the spans of code items. -/
def KeepSpans (w : LayoutWriter) : List Op → Prop
  | [] => True
  | op :: ops => op.KeepsSpan w ∧ KeepSpans (apply page raster byteSizeLong w op).1 ops

end Runs

/-! ## One step -/

section Steps
variable {w : LayoutWriter}

/-- A text item with the base the adders fill. -/
theorem spanned_fill (page : PageContext) (box : Option BoundingBox) (body : Bytes)
    {item : BaseTextItem} (hprov : item.prov = [prov page box (charLength body)])
    (htext : itemText item = body) :
    item.Spanned := by
  refine ⟨by simp [hprov], fun p hp => ?_⟩
  rw [hprov, List.mem_singleton] at hp
  rw [hp, htext]
  rfl

/-- A base with another format, layer or orig spans the same text. -/
theorem spanned_mapBase {item : BaseTextItem} {f : TextItemBase → TextItemBase}
    (hprov : ∀ base, (f base).prov = base.prov) (htext : ∀ base, (f base).text = base.text)
    (h : item.Spanned) : (item.mapBase f).Spanned := by
  have hp : (item.mapBase f).prov = item.prov := by
    cases item <;> simp [BaseTextItem.mapBase, BaseTextItem.prov, hprov]
  have ht : itemText (item.mapBase f) = itemText item := by
    cases item <;> simp [BaseTextItem.mapBase, itemText, htext]
  unfold BaseTextItem.Spanned
  rw [hp, ht]
  exact h

theorem spansFollow_append {doc : Document} {item : BaseTextItem} (h : doc.SpansFollow)
    (hitem : item.Spanned) : (doc.addTexts item).SpansFollow := by
  intro x hx
  rcases List.mem_append.1 hx with hx | hx
  · exact h x hx
  · rw [List.mem_singleton.1 hx]
    exact hitem

/-- An edit of one item that keeps that item spanned. -/
theorem spansFollow_modify {doc : Document} {i : Nat} {f : BaseTextItem → BaseTextItem}
    (h : doc.SpansFollow)
    (hf : ∀ item, doc.texts[i]? = some item → item.Spanned → (f item).Spanned) :
    ({ doc with texts := doc.texts.modify i f } : Document).SpansFollow := by
  intro x hx
  obtain ⟨j, hj⟩ := List.mem_iff_getElem?.1 hx
  rw [List.getElem?_modify, Option.map_eq_map, Option.map_eq_some_iff] at hj
  obtain ⟨item, hitem, rfl⟩ := hj
  have hspanned : item.Spanned := h item (List.mem_of_getElem? hitem)
  split
  · rename_i hij
    exact hf item (hij ▸ hitem) hspanned
  · exact hspanned

/-- The layer of a page header or footer is no matter of its text. -/
theorem text_spans (page : PageContext) (box : Option BoundingBox) (body : Bytes)
    (p : Option BodyChild) (label : DocItemLabel) (h : w.doc.SpansFollow) :
    (text page w box body p label).1.doc.SpansFollow := by
  refine spansFollow_append h ?_
  unfold stampLayer
  split
  · exact spanned_fill page box body rfl rfl
  · exact spanned_fill page box body rfl rfl

/-- A new code text moves no span. -/
theorem spanned_setText_code {item : CodeItem} {body : Bytes}
    (hitem : (BaseTextItem.code item).Spanned) :
    (BaseTextItem.code { item with
      text := body, orig := if item.orig.isEmpty then body else item.orig }).Spanned ↔
      charLength body = charLength item.text := by
  obtain ⟨hne, hspan⟩ := hitem
  obtain ⟨p, hp⟩ := List.exists_mem_of_ne_nil _ hne
  constructor
  · intro h
    have hnew : p.charspan = some (0, charLength body) := h.2 p hp
    rw [hspan p hp, Option.some.injEq, Prod.mk.injEq] at hnew
    exact hnew.2.symm
  · intro hlen
    refine ⟨hne, fun q hq => ?_⟩
    have hold : q.charspan = some (0, charLength item.text) := hspan q hq
    rw [hold, ← hlen]
    rfl

/-- The other variants take the span along. -/
theorem spanned_setText_base {item : BaseTextItem} {body : Bytes} {formatting : Option Wire}
    {hyperlink : Bytes} (hcode : ∀ code, item ≠ .code code) (hitem : item.Spanned) :
    (item.mapBase fun base => { setFormat formatting hyperlink base with
      text := body
      orig := if base.orig.isEmpty then body else base.orig
      prov := base.prov.map (setProvEnd (charLength body)) }).Spanned := by
  have hprov : ∀ {l : List ProvenanceItem} {n : Nat}, (l ≠ [] ∧ ∀ p ∈ l, p.charspan = some (0, n)) →
      l.map (setProvEnd (charLength body)) ≠ [] ∧
        ∀ p ∈ l.map (setProvEnd (charLength body)), p.charspan = some (0, charLength body) := by
    rintro l n ⟨hne, hspan⟩
    refine ⟨by simpa using hne, fun p hp => ?_⟩
    obtain ⟨q, hq, rfl⟩ := List.mem_map.1 hp
    simp [setProvEnd, hspan q hq]
  cases item with
  | code item => exact absurd rfl (hcode item)
  | _ => exact hprov hitem

/-- A `set_text` keeps the spans exactly when it keeps those of code items. -/
theorem setText_spans (ref : BodyChild) (body : Bytes) (formatting : Option Wire)
    (hyperlink : Bytes)
    (h : w.doc.SpansFollow) : (setText w body ref formatting hyperlink).doc.SpansFollow ↔
      (Op.setText ref body formatting hyperlink).KeepsSpan w := by
  unfold setText
  by_cases hkind : ref.kind = .text
  · rw [if_neg (not_not.2 hkind)]
    constructor
    · intro hafter item _ hitem
      have hcode := h _ (List.mem_of_getElem? hitem)
      refine (spanned_setText_code hcode).1 (hafter _ ?_)
      refine List.mem_of_getElem? (i := ref.index) ?_
      simp [modifyText, hitem]
    · intro hkeeps
      apply spansFollow_modify h
      intro item hitem hspanned
      cases item with
      | code item => exact (spanned_setText_code hspanned).2 (hkeeps item hkind hitem)
      | _ => exact spanned_setText_base (by rintro code ⟨⟩) hspanned
  · rw [if_pos hkind]
    exact ⟨fun _ item hk _ => absurd hk hkind, fun _ => h⟩

variable (page : PageContext) (raster : PageRaster) (byteSizeLong : TableCell → Nat)

theorem styledItem_spans (box : Option BoundingBox) (body : Bytes) (p : Option BodyChild)
    (label : DocItemLabel) (h : w.doc.SpansFollow) : (match label with
      | .title => title page w box body p
      | .sectionHeader => heading page w box body p 1
      | .formula => formula page w box body p
      | .code => code page w box body p []
      | .fieldValue => enterText w (w.doc.addTexts (.fieldValue
          (fillTextBase page label (prov page box (charLength body)) body) (ascii "fillable"))) p
      | _ => text page w box body p label).1.doc.SpansFollow := by
  split
  · exact spansFollow_append h (spanned_fill page box body rfl rfl)
  · exact spansFollow_append h (spanned_fill page box body rfl rfl)
  · exact spansFollow_append h (spanned_fill page box body rfl rfl)
  · exact spansFollow_append h (spanned_fill page box body rfl rfl)
  · exact spansFollow_append h (spanned_fill page box body rfl rfl)
  · exact text_spans page box body p label h

theorem styledText_spans (box : Option BoundingBox) (body : Bytes) (p : Option BodyChild)
    (label : DocItemLabel) (formatting : Option Wire) (hyperlink : Bytes) (h : w.doc.SpansFollow) :
    (styledText page w box body p label formatting hyperlink).1.doc.SpansFollow :=
  spansFollow_modify (styledItem_spans page box body p label h) fun _ _ hitem =>
    spanned_mapBase (fun _ => rfl) (fun _ => rfl) hitem

/-- An edit that leaves the text and its span alone. -/
theorem modifyText_spans {i : Nat} {f : BaseTextItem → BaseTextItem} (h : w.doc.SpansFollow)
    (hprov : ∀ item, (f item).prov = item.prov)
    (htext : ∀ item, itemText (f item) = itemText item) :
    (modifyText w i f).doc.SpansFollow := by
  refine spansFollow_modify h fun _ _ hitem => ?_
  unfold BaseTextItem.Spanned
  rw [hprov, htext]
  exact hitem

/-- Captions and footnotes, of whichever owner, touch no text. -/
theorem link_spans (owner : BodyChild) {pictures : List PictureItem} {tables : List TableItem}
    {link : CodeItem → CodeItem} (hprov : ∀ item, (link item).prov = item.prov)
    (htext : ∀ item, (link item).text = item.text) (h : w.doc.SpansFollow) :
    (match owner.kind with
      | .picture => { w with doc := { w.doc with pictures := pictures } }
      | .table => { w with doc := { w.doc with tables := tables } }
      | .text => modifyText w owner.index fun item => match item with
        | .code item => .code (link item)
        | item => item
      | _ => w : LayoutWriter).doc.SpansFollow := by
  split
  · exact h
  · exact h
  · refine modifyText_spans h (fun item => ?_) (fun item => ?_)
    · cases item <;> simp [BaseTextItem.prov, hprov]
    · cases item <;> simp [itemText, htext]
  · exact h

theorem setOrig_spans (ref : BodyChild) (orig : Bytes) (h : w.doc.SpansFollow) :
    (setOrig w ref orig).doc.SpansFollow := by
  unfold setOrig
  split
  · exact h
  · exact modifyText_spans h (fun item => by cases item <;> rfl) (fun item => by cases item <;> rfl)

theorem setContentLayer_spans (ref : BodyChild) (layer : ContentLayer) (h : w.doc.SpansFollow) :
    (setContentLayer w ref layer).doc.SpansFollow := by
  unfold setContentLayer
  split
  · exact modifyText_spans h (fun item => by cases item <;> rfl) (fun item => by cases item <;> rfl)
  · exact h
  · exact h

theorem table_spans (box : Option BoundingBox) (cells : List SpanCell) (p : Option BodyChild)
    (h : w.doc.SpansFollow) : (table page byteSizeLong w box p cells).1.doc.SpansFollow := by
  unfold table
  split <;> exact h

/-- **One operation keeps the spans** exactly when it is no `set_text` of
another length on a code item. -/
theorem apply_spans (op : Op) (h : w.doc.SpansFollow) :
    (apply page raster byteSizeLong w op).1.doc.SpansFollow ↔ op.KeepsSpan w := by
  -- every constructor of a text item but `text` itself fills it the same way
  have hadds : ∀ {box body item}, BaseTextItem.prov item = [prov page box (charLength body)] →
      itemText item = body → (w.doc.addTexts item).SpansFollow := fun hprov htext =>
    spansFollow_append h (spanned_fill page _ _ hprov htext)
  cases op with
  | setText ref body formatting hyperlink => exact setText_spans ref body formatting hyperlink h
  | text label box body p => exact iff_of_true (text_spans page box body p label h) trivial
  | title box body p => exact iff_of_true (hadds rfl rfl) trivial
  | heading level box body p => exact iff_of_true (hadds rfl rfl) trivial
  | formula box body p => exact iff_of_true (hadds rfl rfl) trivial
  | code box body languageRaw p => exact iff_of_true (hadds rfl rfl) trivial
  | listItem box body enumerated marker p => exact iff_of_true (hadds rfl rfl) trivial
  | listGroup p => exact iff_of_true h trivial
  | group name label p => exact iff_of_true h trivial
  | fieldRegion box p => exact iff_of_true h trivial
  | inlineGroup p => exact iff_of_true h trivial
  | styledText label box body formatting hyperlink p =>
    exact iff_of_true (styledText_spans page box body p label formatting hyperlink h) trivial
  | picture box p => exact iff_of_true h trivial
  | table box cells p => exact iff_of_true (table_spans page byteSizeLong box cells p h) trivial
  | setOrig ref orig => exact iff_of_true (setOrig_spans ref orig h) trivial
  | setHeadingLevel i level =>
    exact iff_of_true (modifyText_spans h (fun item => by cases item <;> rfl)
      (fun item => by cases item <;> rfl)) trivial
  | setContentLayer ref layer => exact iff_of_true (setContentLayer_spans ref layer h) trivial
  | linkCaption owner caption =>
    exact iff_of_true (link_spans owner (fun _ => rfl) (fun _ => rfl) h) trivial
  | linkFootnote owner footnote =>
    exact iff_of_true (link_spans owner (fun _ => rfl) (fun _ => rfl) h) trivial

/-! ## Whole runs -/

/-- Every state of a run from a state whose spans follow their texts. -/
theorem run_spans (ops : List Op) : ∀ {w : LayoutWriter} (returned : List BodyChild),
    w.doc.SpansFollow →
    ((∀ n, (run page raster byteSizeLong w returned (ops.take n)).1.doc.SpansFollow) ↔
      KeepSpans page raster byteSizeLong w ops) := by
  induction ops with
  | nil =>
    intro w returned h
    exact iff_of_true (fun n => by rw [List.take_nil]; exact h) trivial
  | cons op ops ih =>
    intro w returned h
    have hstep := apply_spans page raster byteSizeLong op h
    constructor
    · intro hall
      have hafter : (apply page raster byteSizeLong w op).1.doc.SpansFollow := hall 1
      refine ⟨hstep.1 hafter, ?_⟩
      exact (ih (returned ++ (apply page raster byteSizeLong w op).2.toList) hafter).1
        fun n => hall (n + 1)
    · rintro ⟨hop, hops⟩ n
      cases n with
      | zero => exact h
      | succ n => exact (ih _ (hstep.2 hop)).2 hops n

end Steps

/-- **The spans follow the texts exactly while code items keep their
length.** For every run of the writer: in every state it goes through, every
text item's charspan is `[0, n)` for the `n` characters of the text it holds
then, if and only if every `set_text` on a code item gives it a text with as
many characters as the one it has. -/
theorem charspans_iff (page : PageContext) (raster : PageRaster) (byteSizeLong : TableCell → Nat)
    (warnings : Option (List PageWarning)) (ops : List Op) :
    (∀ n, (run page raster byteSizeLong { warnings := warnings } []
      (ops.take n)).1.doc.SpansFollow) ↔
      KeepSpans page raster byteSizeLong { warnings := warnings } ops :=
  run_spans page raster byteSizeLong ops [] fun item hitem => by cases hitem

/-- A code item of two characters that is given a text of one. -/
def sampleCodeOps : List Op := [
  .code none (ascii "ab") [] none,
  .setText ⟨.text, 0⟩ (ascii "x") none []]

theorem charspan_of_code_stays : ¬(run samplePage sampleRaster (fun cell => cell.text.length + 20)
    { warnings := none } [] sampleCodeOps).1.doc.SpansFollow := by
  intro h
  have hspan := (h _ List.mem_cons_self).2 _ List.mem_cons_self
  exact absurd hspan (by decide)

end LayoutWriter

end VlmConvert.L3

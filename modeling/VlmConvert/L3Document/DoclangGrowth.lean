import VlmConvert.L3Document.DoclangHeadings
import VlmConvert.L3Document.WriterGrowth

/-!
# How a DocLang writer grows

The DocLang builder passes groups, hosts and captions on through its
recursion, and remembers the code item written last. `Advances` is the step: the
writer grows and the remembered item is in it. The walk is by induction over the
element tree, with handlers for what is below as a hypothesis.

Result: `mapDoclang_wellFormed`, a DocLang page is well formed.
-/
namespace VlmConvert.L3.Doclang

open Bytes L1 L2 LayoutWriter

/-- A builder in order. -/
structure Fit (page : PageContext) (b : Builder) : Prop where
  order : b.writer.InOrder page
  lastCode : b.writer.HasParent b.lastCode

/-- The writer grew, and the code item written last is in it. -/
structure Advances (page : PageContext) (b b' : Builder) : Prop where
  grows : Grows page b.writer b'.writer
  lastCode : b'.writer.HasParent b'.lastCode

/-- Text items of a writer. -/
def Texts (w : LayoutWriter) (items : List BodyChild) : Prop :=
  ∀ item ∈ items, w.Has item ∧ item.kind = .text

section Steps
variable {page : PageContext} {b b' b'' : Builder} {w : LayoutWriter} {parent : Option BodyChild}

theorem Fit.advances (h : Fit page b) : Advances page b b := ⟨h.order.grows, h.lastCode⟩

theorem Advances.fit (h : Advances page b b') : Fit page b' := ⟨h.grows.order, h.lastCode⟩

theorem Advances.trans (h : Advances page b b') (h' : Advances page b' b'') : Advances page b b'' :=
  ⟨h.grows.trans h'.grows, h'.lastCode⟩

/-- A change of the writer alone. -/
theorem Fit.writer (h : Fit page b) (hw : Grows page b.writer w) :
    Advances page b { b with writer := w } :=
  ⟨hw, hw.parent h.lastCode⟩

theorem Texts.grows {items : List BodyChild} {w' : LayoutWriter} (h : Texts w items)
    (hw : Grows page w w') :
    Texts w' items :=
  fun item hitem => ⟨hw.keeps (h item hitem).1, (h item hitem).2⟩

theorem advances_foldl {α : Type} {f : Builder → α → Builder} (l : List α) :
    ∀ {b : Builder}, Fit page b →
    (∀ a ∈ l, ∀ b', Advances page b b' → Advances page b' (f b' a)) →
      Advances page b (l.foldl f b) := by
  induction l with
  | nil => exact fun h _ => h.advances
  | cons a l ih =>
    intro b h hf
    have hfirst := hf a List.mem_cons_self b h.advances
    refine hfirst.trans (ih hfirst.fit fun c hc b' hb' => ?_)
    exact hf c (List.mem_cons_of_mem a hc) b' (hfirst.trans hb')

/-! ## Writing -/

theorem makes_styledText (h : w.InOrder page) (hp : w.HasParent parent) (box : Option BoundingBox)
    (body : Bytes) (label : DocItemLabel) (formatting : Option Wire) (hyperlink : Bytes) :
    Makes page w (w.styledText page box body parent label formatting hyperlink) :=
  makes_op sampleRaster (fun _ => 0)
    (.styledText label box body formatting hyperlink parent) h hp rfl

theorem makes_inlineGroup (h : w.InOrder page) (hp : w.HasParent parent) :
    Makes page w (w.inlineGroup parent) :=
  makes_op sampleRaster (fun _ => 0) (.inlineGroup parent) h hp rfl

theorem grows_setContentLayer {ref : BodyChild} (h : w.InOrder page) (href : w.Has ref)
    (layer : ContentLayer) : Grows page w (w.setContentLayer ref layer) := by
  have hon : Op.On w (.setContentLayer ref layer) := href
  exact grows_apply sampleRaster (fun _ => 0) h hon

theorem grows_applyLayer {ref : BodyChild} (h : w.InOrder page) (href : w.Has ref)
    (children : List MarkupNode) : Grows page w (applyLayer w ref children) := by
  unfold applyLayer
  split
  · exact grows_setContentLayer h href _
  · exact h.grows

/-- An item, and the layer of its head. -/
theorem Fit.layered (h : Fit page b) {r : LayoutWriter × BodyChild} (hr : Makes page b.writer r)
    (children : List MarkupNode) :
    Advances page b { b with writer := applyLayer r.1 r.2 children } :=
  h.writer (hr.1.trans (grows_applyLayer hr.1.order hr.2 children))

theorem grows_layers {kind : BodyChild.Kind} (layer : ContentLayer) (indices : List Nat)
    (h : w.InOrder page) (hitems : ∀ i ∈ indices, w.Has ⟨kind, i⟩) :
    Grows page w (indices.foldl (fun w i => w.setContentLayer ⟨kind, i⟩ layer) w) :=
  grows_foldl indices h fun i hi _ hw' =>
    grows_setContentLayer hw'.order (hw'.keeps (hitems i hi)) layer

theorem advances_layerSubtree (h : Fit page b) (textsBefore groupsBefore : Nat)
    (children : List MarkupNode) :
    Advances page b (layerSubtree textsBefore groupsBefore children b) := by
  unfold layerSubtree
  split
  · exact h.advances
  · rename_i layer _
    refine h.writer ?_
    have htexts :=
      grows_layers layer (List.range' textsBefore (b.writer.doc.texts.length - textsBefore))
      h.order fun i hi => (node_isSome _ ⟨.text, i⟩).2 (by
        have := List.mem_range'_1.1 hi
        simp only [Document.size]
        omega)
    refine htexts.trans (grows_layers layer _ htexts.order fun i hi => htexts.keeps ?_)
    refine (node_isSome _ ⟨.group, i⟩).2 ?_
    have := List.mem_range'_1.1 hi
    simp only [Document.size]
    omega

theorem advances_singleRun (res : Resolution) (h : Fit page b) (hp : b.writer.HasParent parent)
    (el : MarkupNode) : Advances page b (singleRun page res parent b el) := by
  unfold singleRun
  dsimp only
  split
  · exact h.advances
  · split
    · exact h.layered (makes_op sampleRaster (fun _ => 0) (.formula _ _ parent) h.order hp rfl) _
    · split
      · exact h.advances
      · exact h.layered (makes_styledText h.order hp _ _ _ _ _) _

theorem advances_heading (res : Resolution) (h : Fit page b) (hp : b.writer.HasParent parent)
    (el : MarkupNode) : Advances page b (heading page res parent b el) := by
  unfold heading
  dsimp only
  split
  · exact h.advances
  · refine h.layered ?_ _
    split
    · exact makes_op sampleRaster (fun _ => 0) (.title _ _ parent) h.order hp rfl
    · exact makes_op sampleRaster (fun _ => 0) (.heading _ _ _ parent) h.order hp rfl

/-- A host, which is a text item, and its group. -/
theorem advances_openHost (res : Resolution) (h : Fit page b) (hp : b.writer.HasParent parent)
    (children : List MarkupNode) (label : DocItemLabel) :
    Advances page b (openHost page res children label parent b).1 ∧
      ((openHost page res children label parent b).1.writer.Has
          (openHost page res children label parent b).2.1 ∧
        (openHost page res children label parent b).2.1.kind = .text) ∧
      (openHost page res children label parent b).1.writer.Has
        (openHost page res children label parent b).2.2 := by
  have hhost := makes_styledText h.order hp (headBox page res children) [] label none []
  have hgroup := makes_inlineGroup hhost.1.order (hasParent_some hhost.2)
  exact ⟨h.writer (hhost.1.trans hgroup.1),
    ⟨hgroup.1.keeps hhost.2, styledText_kind (headBox page res children) [] parent label none []⟩,
      hgroup.2⟩

theorem grows_linkCaptions {owner : BodyChild} {captions : List BodyChild} (h : w.InOrder page)
    (howner : w.Has owner) (hcaptions : Texts w captions) :
    Grows page w (captions.foldl (fun w caption => w.linkCaption owner caption) w) := by
  refine grows_foldl captions h fun caption hcaption w' hw' => ?_
  have hon : Op.On w' (.linkCaption owner caption) :=
    ⟨hw'.keeps howner, hw'.keeps (hcaptions caption hcaption).1, (hcaptions caption hcaption).2⟩
  exact grows_apply sampleRaster (fun _ => 0) hw'.order hon

theorem grows_attach {owner : BodyChild} {captions footnotes : List BodyChild} (h : w.InOrder page)
    (howner : w.Has owner) (hcaptions : Texts w captions) (hfootnotes : Texts w footnotes) :
    Grows page w (attach w owner captions footnotes) := by
  have hlinked := grows_linkCaptions h howner hcaptions
  refine hlinked.trans (grows_foldl footnotes hlinked.order fun footnote hfootnote w' hw' => ?_)
  have hfoot := (hfootnotes.grows hlinked).grows hw' footnote hfootnote
  have hon : Op.On w' (.linkFootnote owner footnote) := ⟨hw'.keeps (hlinked.keeps howner), hfoot⟩
  exact grows_apply sampleRaster (fun _ => 0) hw'.order hon

/-- A text element, given that its runs and its captions let the writer grow. -/
theorem advances_textLikeWith (res : Resolution) (h : Fit page b) (hp : b.writer.HasParent parent)
    (tag : Bytes) (attrs : List (Bytes × Bytes)) (children : List MarkupNode)
    {runs : Bool → BodyChild → Option Formatting → Builder → Builder}
    {captions : Builder → Builder × List BodyChild}
    (hruns : ∀ skip {parent} formatting {b}, Fit page b → b.writer.Has parent →
      Advances page b (runs skip parent formatting b))
    (hcaptions : ∀ {b}, Fit page b →
      Advances page b (captions b).1 ∧ Texts (captions b).1.writer (captions b).2) :
    Advances page b (textLikeWith page res runs captions parent b tag attrs children) := by
  unfold textLikeWith
  dsimp only
  split
  · split
    · obtain ⟨hhost, -, hgroup⟩ := advances_openHost res h hp children ((textLabel tag).getD .text)
      have hwritten := hhost.trans (hruns true none hhost.fit hgroup)
      exact hwritten.trans (advances_layerSubtree hwritten.fit _ _ _)
    · have hgroup := makes_inlineGroup h.order hp
      have hopen := h.writer hgroup.1
      have hwritten := hopen.trans (hruns false
        (if kFormatTags.contains tag then some (mergeFormat tag {}) else none) hopen.fit hgroup.2)
      exact hwritten.trans (advances_layerSubtree hwritten.fit _ _ _)
  · split
    · split
      · exact h.advances
      · have hitem : Makes page b.writer
            (b.writer.code page (headBox page res children) (codeText children) parent
            (headLabel children)) :=
          makes_op sampleRaster (fun _ => 0) (.code _ _ _ parent) h.order hp rfl
        have hlayered := h.layered hitem children
        obtain ⟨hwritten, htexts⟩ := hcaptions hlayered.fit
        have hcode := hwritten.grows.keeps
          ((grows_applyLayer hitem.1.order hitem.2 children).keeps hitem.2)
        have hlinked := grows_linkCaptions hwritten.grows.order hcode htexts
        exact ⟨(hlayered.trans hwritten).grows.trans hlinked, hasParent_some (hlinked.keeps hcode)⟩
    · exact advances_singleRun res h hp _

end Steps

/-! ## The walk -/

section Walk
variable {page : PageContext} (res : Resolution)
  {handlers : MarkupNode → Option BodyChild → Builder → Builder}

/-- The handlers let the writer grow. -/
def Advancing (page : PageContext) (handlers : MarkupNode → Option BodyChild → Builder → Builder) :
    Prop :=
  ∀ el {parent b}, Fit page b → b.writer.HasParent parent → Advances page b (handlers el parent b)

mutual
theorem advances_inlineRuns (hbelow : Advancing page handlers) :
    ∀ (skip : Bool) {parent : BodyChild}
    (formatting : Option Formatting) {b : Builder} (nodes : List MarkupNode), Fit page b →
    b.writer.Has parent →
      Advances page b (inlineRuns page res handlers skip parent formatting b nodes)
  | _, _, _, _, [], h, _ => by
    rw [inlineRuns]
    exact h.advances
  | skip, parent, formatting, b, .text t :: rest, h, hp => by
    rw [inlineRuns]
    split
    · exact advances_inlineRuns hbelow skip formatting rest h hp
    · have hrun := h.writer (makes_styledText h.order (hasParent_some hp) none (trim t) .text
        (formatting.map formattingWire) []).1
      exact hrun.trans
        (advances_inlineRuns hbelow false formatting rest hrun.fit (hrun.grows.keeps hp))
  | skip, parent, formatting, b, .element tag attrs children :: rest, h, hp => by
    rw [inlineRuns]
    split
    · exact advances_inlineRuns hbelow skip formatting rest h hp
    · split
      · have hinner :=
          advances_inlineRuns hbelow false (some (mergeFormat tag (formatting.getD {}))) children
          h hp
        exact hinner.trans
          (advances_inlineRuns hbelow false formatting rest hinner.fit (hinner.grows.keeps hp))
      · have hnode := advances_dispatch hbelow (.element tag attrs children) h (hasParent_some hp)
        exact hnode.trans
          (advances_inlineRuns hbelow false formatting rest hnode.fit (hnode.grows.keeps hp))
theorem advances_dispatch (hbelow : Advancing page handlers) :
    ∀ {parent : Option BodyChild} {b : Builder}
    (node : MarkupNode), Fit page b → b.writer.HasParent parent →
    Advances page b (dispatch page res handlers parent b node)
  | _, _, .text _, h, _ => by
    rw [dispatch]
    exact h.advances
  | parent, b, .element tag attrs children, h, hp => by
    rw [dispatch]
    split
    · exact h.advances
    · split
      · exact advances_textLikeWith res h hp tag attrs children
          (fun skip _ formatting _ h hp => advances_inlineRuns hbelow skip formatting children h hp)
          (fun h => advances_captionsOf hbelow children h)
      · split
        · exact advances_heading res h hp _
        · split
          · exact hbelow _ h hp
          · exact advances_walkChildren hbelow children h hp
theorem advances_walkChildren (hbelow : Advancing page handlers) : ∀ {parent : Option BodyChild}
    {b : Builder} (nodes : List MarkupNode), Fit page b → b.writer.HasParent parent →
    Advances page b (walkChildren page res handlers parent b nodes)
  | _, _, [], h, _ => by
    rw [walkChildren]
    exact h.advances
  | parent, b, .text t :: rest, h, hp => by
    rw [walkChildren]
    exact advances_walkChildren hbelow rest h hp
  | parent, b, .element tag attrs children :: rest, h, hp => by
    rw [walkChildren]
    split
    · exact advances_walkChildren hbelow rest h hp
    · have hnode := advances_dispatch hbelow (.element tag attrs children) h hp
      exact hnode.trans (advances_walkChildren hbelow rest hnode.fit (hnode.grows.parent hp))
theorem advances_captionsOf (hbelow : Advancing page handlers) :
    ∀ {b : Builder} (nodes : List MarkupNode),
    Fit page b → Advances page b (captionsOf page res handlers b nodes).1 ∧
      Texts (captionsOf page res handlers b nodes).1.writer (captionsOf page res handlers b nodes).2
  | _, [], h => by
    rw [captionsOf]
    exact ⟨h.advances, fun _ hitem => by cases hitem⟩
  | b, .text t :: rest, h => by
    rw [captionsOf]
    exact advances_captionsOf hbelow rest h
  | b, .element tag attrs children :: rest, h => by
    rw [captionsOf]
    dsimp only
    split
    · exact advances_captionsOf hbelow rest h
    · split
      · obtain ⟨hhost, htext, hgroup⟩ := advances_openHost res h hasParent_none children .caption
        have hruns := advances_inlineRuns hbelow true none children hhost.fit hgroup
        have hlayered := hruns.trans (advances_layerSubtree hruns.fit b.writer.doc.texts.length
          b.writer.doc.groups.length children)
        obtain ⟨hmore, htexts⟩ := advances_captionsOf hbelow rest hlayered.fit
        have hrest := hlayered.trans hmore
        exact ⟨hhost.trans hrest,
          List.forall_mem_cons.2 ⟨⟨hrest.grows.keeps htext.1, htext.2⟩, htexts⟩⟩
      · have hitem := makes_styledText h.order hasParent_none (headBox page res children)
          (trim (getText (.element tag attrs children))) .caption none []
        have hlayered := h.layered hitem children
        obtain ⟨hmore, htexts⟩ := advances_captionsOf hbelow rest hlayered.fit
        have hkind := @styledText_kind page b.writer (headBox page res children)
          (trim (getText (.element tag attrs children))) none .caption none []
        refine ⟨hlayered.trans hmore, List.forall_mem_cons.2 ⟨⟨?_, hkind⟩, htexts⟩⟩
        exact hmore.grows.keeps ((grows_applyLayer hitem.1.order hitem.2 children).keeps hitem.2)
end

end Walk

/-! ## The handlers -/

section Blocks
variable (env : Env) {handlers : MarkupNode → Option BodyChild → Builder → Builder}
  {parent : Option BodyChild} {b : Builder}

theorem advances_dispatchAll (hbelow : Advancing env.page handlers) (nodes : List MarkupNode)
    (h : Fit env.page b) (hp : b.writer.HasParent parent) :
    Advances env.page b (dispatchAll env handlers parent b nodes) :=
  advances_foldl nodes h fun node _ _ hb' =>
    advances_dispatch env.res hbelow node hb'.fit (hb'.grows.parent hp)

theorem advances_listItem (hbelow : Advancing env.page handlers) (ordered : Bool)
    {group : BodyChild}
    (ldiv : MarkupNode) (nodes : List MarkupNode) (h : Fit env.page b)
    (hgroup : b.writer.Has group) :
    Advances env.page b (listItem env handlers ordered group b ldiv nodes) := by
  have hitem : ∀ box text, Makes env.page b.writer
      (LayoutWriter.listItem env.page b.writer box text (some group) ordered (listMarker ldiv)) :=
    fun box text => makes_op sampleRaster (fun _ => 0)
      (.listItem box text ordered (listMarker ldiv) (some group)) h.order
        (hasParent_some hgroup) rfl
  unfold listItem
  dsimp only
  cases itemShape nodes with
  | empty => exact h.writer (hitem _ _).1
  | text el => exact h.writer (hitem _ _).1
  | nested leading elements =>
    have hopen := hitem (boxFrom env.page env.res [] env.res.width env.res.height nodes) leading
    have hwritten := h.writer hopen.1
    exact hwritten.trans
      (advances_dispatchAll env hbelow elements hwritten.fit (hasParent_some hopen.2))
  | blocks elements =>
    have hopen := hitem (boxFrom env.page env.res [] env.res.width env.res.height nodes) []
    have hwritten := h.writer hopen.1
    exact hwritten.trans
      (advances_dispatchAll env hbelow elements hwritten.fit (hasParent_some hopen.2))
  | runs content =>
    have hopen := hitem (boxFrom env.page env.res [] env.res.width env.res.height nodes) []
    have hruns := makes_inlineGroup hopen.1.order (hasParent_some hopen.2)
    have hwritten := h.writer (hopen.1.trans hruns.1)
    exact hwritten.trans
      (advances_inlineRuns env.res hbelow false none content hwritten.fit hruns.2)

theorem advances_list (hbelow : Advancing env.page handlers) (el : MarkupNode) (h : Fit env.page b)
    (hp : b.writer.HasParent parent) : Advances env.page b (list env handlers parent b el) := by
  have hgroup : Makes env.page b.writer (b.writer.listGroup parent) :=
    makes_op sampleRaster (fun _ => 0) (.listGroup parent) h.order hp rfl
  have hopen := h.writer hgroup.1
  refine hopen.trans (advances_foldl _ hopen.fit fun segment _ b' hb' => ?_)
  exact advances_listItem env hbelow _ _ _ hb'.fit (hb'.grows.keeps hgroup.2)

theorem advances_satellites (children : List MarkupNode) : ∀ {b : Builder}, Fit env.page b →
    Advances env.page b (satellites env b children).1 ∧
      Texts (satellites env b children).1.writer (satellites env b children).2.1 ∧
      Texts (satellites env b children).1.writer (satellites env b children).2.2 := by
  induction children with
  | nil =>
    exact fun h => ⟨h.advances, fun _ hitem => (by cases hitem), fun _ hitem => (by cases hitem)⟩
  | cons child rest ih =>
    intro b h
    rw [satellites]
    dsimp only
    split
    · exact ih h
    · have hitem := fun label => makes_styledText h.order hasParent_none
        (headBox env.page env.res child.children) (trim (getText child)) label none []
      have hkind := fun label => @styledText_kind env.page b.writer
        (headBox env.page env.res child.children) (trim (getText child)) none label none []
      split
      · have hwritten := h.writer (hitem .caption).1
        obtain ⟨hmore, hcaptions, hfootnotes⟩ := ih hwritten.fit
        exact ⟨hwritten.trans hmore,
          List.forall_mem_cons.2 ⟨⟨hmore.grows.keeps (hitem .caption).2, hkind .caption⟩,
            hcaptions⟩,
          hfootnotes⟩
      · have hwritten := h.writer (hitem .footnote).1
        obtain ⟨hmore, hcaptions, hfootnotes⟩ := ih hwritten.fit
        exact ⟨hwritten.trans hmore, hcaptions,
          List.forall_mem_cons.2 ⟨⟨hmore.grows.keeps (hitem .footnote).2, hkind .footnote⟩,
            hfootnotes⟩⟩

theorem advances_floatCaptions (hbelow : Advancing env.page handlers) (children : List MarkupNode)
    (host : Option MarkupNode) (h : Fit env.page b) :
    Advances env.page b (floatCaptions env handlers b children host).1 ∧
      Texts (floatCaptions env handlers b children host).1.writer
        (floatCaptions env handlers b children host).2.1 ∧
      Texts (floatCaptions env handlers b children host).1.writer
        (floatCaptions env handlers b children host).2.2 := by
  obtain ⟨haround, hcaptions, hfootnotes⟩ := advances_satellites env children h
  obtain ⟨hown, howns⟩ := advances_captionsOf env.res hbelow children haround.fit
  have hfinal : ∀ r : Builder × List BodyChild,
      Advances env.page (satellites env b children).1 r.1 → Texts r.1.writer r.2 →
      Advances env.page b r.1 ∧ Texts r.1.writer (r.2 ++ (satellites env b children).2.1) ∧
        Texts r.1.writer (satellites env b children).2.2 := by
    intro r hr htexts
    refine ⟨haround.trans hr, fun item hitem => ?_, hfootnotes.grows hr.grows⟩
    rcases List.mem_append.1 hitem with hitem | hitem
    · exact htexts item hitem
    · exact hcaptions.grows hr.grows item hitem
  unfold floatCaptions
  dsimp only
  cases host with
  | none => exact hfinal _ hown howns
  | some host =>
    dsimp only
    split
    · obtain ⟨hhost, hhosts⟩ := advances_captionsOf env.res hbelow host.children hown.fit
      exact hfinal _ (hown.trans hhost) hhosts
    · exact hfinal _ hown howns

theorem advances_tableItem {captions footnotes : List BodyChild} (otsl : MarkupNode)
    (h : Fit env.page b)
    (hp : b.writer.HasParent parent) (hcaptions : Texts b.writer captions)
    (hfootnotes : Texts b.writer footnotes) :
    Advances env.page b (tableItem env parent b otsl captions footnotes) := by
  have hitem : Makes env.page b.writer (LayoutWriter.table env.page env.byteSizeLong b.writer
      (headBox env.page env.res otsl.children) parent (otslCells (bodyNodes otsl.children))) :=
    makes_op sampleRaster env.byteSizeLong (.table _ _ parent) h.order hp rfl
  unfold tableItem
  generalize LayoutWriter.table env.page env.byteSizeLong b.writer
    (headBox env.page env.res otsl.children)
    parent (otslCells (bodyNodes otsl.children)) = item at hitem ⊢
  dsimp only
  have hlabelled : Grows env.page item.1 (if otsl.tag == ascii "index" then
      { item.1 with doc := { item.1.doc with
        tables := item.1.doc.tables.modify item.2.index
          fun table => { table with label := .documentIndex } } }
      else item.1) := by
    split
    · refine grows_tables hitem.1.order ?_ ?_ ?_ _
      · exact fun _ => rfl
      · exact fun _ => rfl
      · exact fun _ hitem => hitem
    · exact hitem.1.order.grows
  have hlayered := hlabelled.trans
    (grows_applyLayer hlabelled.order (hlabelled.keeps hitem.2) otsl.children)
  have hall := hitem.1.trans hlayered
  exact h.writer
    (hall.trans (grows_attach hall.order (hlayered.keeps hitem.2) (hcaptions.grows hall)
    (hfootnotes.grows hall)))

theorem texts_nil {w : LayoutWriter} : Texts w [] := fun _ hitem => by cases hitem

theorem advances_table (hbelow : Advancing env.page handlers) (el : MarkupNode) (h : Fit env.page b)
    (hp : b.writer.HasParent parent) : Advances env.page b (table env handlers parent b el) := by
  unfold table
  dsimp only
  split
  · obtain ⟨hown, howns⟩ := advances_captionsOf env.res hbelow el.children h
    exact hown.trans (advances_tableItem env el hown.fit (hown.grows.parent hp) howns texts_nil)
  · obtain ⟨hwritten, hcaptions, hfootnotes⟩ := advances_floatCaptions env hbelow el.children
      ((firstChild (ascii "table") el.children).or (firstChild (ascii "index") el.children)) h
    split
    · exact hwritten.trans
        (advances_tableItem env _ hwritten.fit (hwritten.grows.parent hp) hcaptions hfootnotes)
    · have hitem :
        Makes env.page _ (LayoutWriter.table env.page env.byteSizeLong _ none parent []) :=
        makes_op sampleRaster env.byteSizeLong (.table none [] parent) hwritten.grows.order
          (hwritten.grows.parent hp) rfl
      exact hwritten.trans (hwritten.fit.writer (hitem.1.trans (grows_attach hitem.1.order hitem.2
        (hcaptions.grows hitem.1) (hfootnotes.grows hitem.1))))

theorem grows_addChart {w : LayoutWriter} (picture : BodyChild) (node : MarkupNode)
    (h : w.InOrder env.page) : Grows env.page w (addChart picture w node) := by
  unfold addChart
  split
  · exact grows_setTabularChart h _ _ _ _
  · exact h.grows

theorem advances_picture (hbelow : Advancing env.page handlers) (el : MarkupNode)
    (h : Fit env.page b)
    (hp : b.writer.HasParent parent) : Advances env.page b (picture env handlers parent b el) := by
  have hcaptions : ∀ host, ∀ r, r = (if (el.tag == ascii "picture") = true then
        ((captionsOf env.page env.res handlers b el.children).1,
          (captionsOf env.page env.res handlers b el.children).2, [])
      else floatCaptions env handlers b el.children host) →
      Advances env.page b r.1 ∧ Texts r.1.writer r.2.1 ∧ Texts r.1.writer r.2.2 := by
    rintro host r rfl
    split
    · obtain ⟨hown, howns⟩ := advances_captionsOf env.res hbelow el.children h
      exact ⟨hown, howns, texts_nil⟩
    · exact advances_floatCaptions env hbelow el.children host h
  unfold picture
  dsimp only
  generalize (if (el.tag == ascii "picture") = true then some el
    else firstChild (ascii "picture") el.children) = host
  obtain ⟨hwritten, htexts, hfootnotes⟩ := hcaptions host _ rfl
  generalize (if (el.tag == ascii "picture") = true then
      ((captionsOf env.page env.res handlers b el.children).1,
        (captionsOf env.page env.res handlers b el.children).2, [])
    else floatCaptions env handlers b el.children host) = captions at hwritten htexts hfootnotes ⊢
  have hitem :
    Makes env.page captions.1.writer (LayoutWriter.picture env.page env.raster captions.1.writer
      (host.bind fun host => headBox env.page env.res host.children) parent) :=
    makes_op env.raster (fun _ => 0) (.picture _ parent) hwritten.grows.order
      (hwritten.grows.parent hp) rfl
  generalize LayoutWriter.picture env.page env.raster captions.1.writer
    (host.bind fun host => headBox env.page env.res host.children) parent = item at hitem ⊢
  have hlinked :=
    grows_attach hitem.1.order hitem.2 (htexts.grows hitem.1) (hfootnotes.grows hitem.1)
  have hattached := hitem.1.trans hlinked
  have hpicture := hlinked.keeps hitem.2
  cases host with
  | none => exact hwritten.trans (hwritten.fit.writer hattached)
  | some host =>
    dsimp only
    have hlayered := grows_applyLayer hattached.order hpicture host.children
    have hclassified := hlayered.trans
      (grows_classifyPicture hlayered.order item.2 (headLabel host.children) (ascii "doclang"))
    have hcharts :=
      hclassified.trans (grows_foldl ((bodyNodes host.children).takeWhile leadsPicture)
      hclassified.order fun node _ w' hw' => grows_addChart env item.2 node hw'.order)
    have hdata := hwritten.fit.writer (hattached.trans hcharts)
    exact hwritten.trans (hdata.trans (advances_dispatchAll env hbelow _ hdata.fit
      (hasParent_some (hcharts.keeps hpicture))))

theorem advances_textLike (hbelow : Advancing env.page handlers) (node : MarkupNode)
    (h : Fit env.page b)
    (hp : b.writer.HasParent parent) :
    Advances env.page b (textLike env.page env.res handlers parent b node) := by
  cases node with
  | text t => exact h.advances
  | element tag attrs children =>
    exact advances_textLikeWith env.res h hp tag attrs children
      (fun skip _ formatting _ h hp =>
        advances_inlineRuns env.res hbelow skip formatting children h hp)
      (fun h => advances_captionsOf env.res hbelow children h)

theorem advances_codeGroup (hbelow : Advancing env.page handlers) (el code : MarkupNode)
    (h : Fit env.page b) (hp : b.writer.HasParent parent) :
    Advances env.page b (codeGroup env handlers parent b el code) := by
  obtain ⟨haround, hcaptions, hfootnotes⟩ := advances_satellites env el.children h
  have hforgets : Advances env.page (satellites env b el.children).1
      { (satellites env b el.children).1 with lastCode := none } :=
    ⟨haround.grows.order.grows, hasParent_none⟩
  have htext := advances_textLike env hbelow code hforgets.fit (haround.grows.parent hp)
  have hall := haround.trans (hforgets.trans htext)
  unfold codeGroup
  dsimp only
  split
  · rename_i item hitem
    have hcode := htext.lastCode item hitem
    exact hall.trans (hall.fit.writer (grows_attach hall.grows.order hcode
      (hcaptions.grows htext.grows) (hfootnotes.grows htext.grows)))
  · exact hall

theorem advances_group (hbelow : Advancing env.page handlers) (el : MarkupNode) (h : Fit env.page b)
    (hp : b.writer.HasParent parent) : Advances env.page b (group env handlers parent b el) := by
  unfold group
  dsimp only
  split
  · have hgroup : Makes env.page b.writer (b.writer.group parent (el.attr (ascii "name") [])
        (groupLabelOf (headLabel el.children))) :=
      makes_op sampleRaster (fun _ => 0) (.group _ _ parent) h.order hp rfl
    have hopen := h.writer hgroup.1
    exact hopen.trans (advances_walkChildren env.res hbelow _ hopen.fit (hasParent_some hgroup.2))
  · split
    · split
      · exact advances_picture env hbelow el h hp
      · split
        · exact advances_codeGroup env hbelow el _ h hp
        · exact advances_table env hbelow el h hp
    · exact advances_walkChildren env.res hbelow _ h hp

theorem advancing_block (hbelow : Advancing env.page handlers) :
    Advancing env.page (block env handlers) := by
  intro el parent b h hp
  unfold block
  split
  · exact advances_list env hbelow el h hp
  · split
    · exact advances_group env hbelow el h hp
    · split
      · exact advances_table env hbelow el h hp
      · exact advances_picture env hbelow el h hp

theorem advancing_blocks (n : Nat) : Advancing env.page (blocks env n) := by
  induction n with
  | zero => exact fun _ _ _ h _ => h.advances
  | succ n ih => exact advancing_block env ih

end Blocks

/-- **A DocLang page is well formed.** -/
theorem mapDoclang_wellFormed {page : PageContext} {raster : PageRaster}
    {byteSizeLong : TableCell → Nat}
    {text : Bytes} {warnings : Option (List PageWarning)}
    {made : Document × Option (List PageWarning)}
    (h : mapDoclang page raster byteSizeLong text warnings = .ok made) :
    made.1.WellFormed page := by
  unfold mapDoclang at h
  split at h
  · cases h
  · rename_i root _
    have hstart : Fit page { writer := { warnings := warnings } } :=
      ⟨inOrder_empty warnings, hasParent_none⟩
    have hwritten := advances_dispatchAll ⟨page, raster, byteSizeLong, setResolution root⟩
      (advancing_blocks _ (height root))
        (root.children.filter fun child => !child.isText) hstart hasParent_none
    exact finish_wellFormed raster hwritten.grows.order h

end VlmConvert.L3.Doclang

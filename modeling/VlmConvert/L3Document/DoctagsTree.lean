import VlmConvert.L3Document.Doctags

/-!
# DocTags: the reference tree

The items of a DocTags page hang under the body or under a list or inline
group. Groups stamp their children when they are emitted; the rest is
stamped at the end. `Inv` says where the references stand between emissions,
over the forest of the items made so far.

Result: `doctags_refTree`, for every response that maps, well formed or not,
the references are a tree, body children follow the emissions, and every
caption reference names a caption of one owner.
-/
namespace VlmConvert.L3

open Bytes L2

/-! ## Captions -/

def BaseTextItem.label : BaseTextItem → DocItemLabel
  | .title base | .sectionHeader base _ | .listItem base _ _ | .formula base | .text base
  | .fieldHeading base | .fieldValue base _ => base.label
  | .code item => item.label

/-- The label of the text item at `j`. -/
def Document.labelAt (doc : Document) (j : Nat) : Option DocItemLabel :=
  doc.texts[j]?.map BaseTextItem.label

/-- Caption references name caption items, each at most once. -/
structure Document.Captioned (doc : Document) : Prop where
  named : ∀ ref ∈ doc.captions, ∃ j, ref = bodyChildRef ⟨.text, j⟩ ∧ doc.labelAt j = some .caption
  nodup : doc.captions.Nodup

section Captions
variable {doc doc' : Document}

theorem stampItem_labelAt (doc : Document) (child : BodyChild) (ref : Bytes) (j : Nat) :
    (stampItem doc child ref).labelAt j = doc.labelAt j := by
  have htext : ∀ item : BaseTextItem,
      (stampTextItem item (bodyChildRef child) ref).label = item.label := by
    intro item
    cases item <;> rfl
  have hmap : ∀ i, (doc.texts.modify i (stampTextItem · (bodyChildRef child) ref)).map
      BaseTextItem.label = doc.texts.map BaseTextItem.label :=
    fun i => map_modify _ _ _ _ htext
  unfold Document.labelAt stampItem
  split
  · rw [← List.getElem?_map, hmap, List.getElem?_map]
  all_goals rfl

theorem addItemChild_labelAt (doc : Document) (child : BodyChild) (ref : Bytes) (j : Nat) :
    (addItemChild doc child ref).labelAt j = doc.labelAt j := by
  have htext : ∀ item : BaseTextItem, (item.addChild ref).label = item.label := by
    intro item
    cases item <;> rfl
  have hmap : ∀ i, (doc.texts.modify i (·.addChild ref)).map BaseTextItem.label =
      doc.texts.map BaseTextItem.label :=
    fun i => map_modify _ _ _ _ htext
  unfold Document.labelAt addItemChild
  split
  case h_5 => rw [← List.getElem?_map, hmap, List.getElem?_map]
  all_goals rfl

/-- Captions are kept by whatever keeps the labels. -/
theorem Document.Captioned.keep (h : doc.Captioned) (hcaptions : doc'.captions = doc.captions)
    (hlabel : ∀ {j label}, doc.labelAt j = some label → doc'.labelAt j = some label) :
    doc'.Captioned where
  named := by
    intro ref href
    obtain ⟨j, he, hj⟩ := h.named ref (hcaptions ▸ href)
    exact ⟨j, he, hlabel hj⟩
  nodup := hcaptions ▸ h.nodup

theorem Document.labelAt_addTexts {item : BaseTextItem} {j : Nat} {label : DocItemLabel}
    (h : doc.labelAt j = some label) : (doc.addTexts item).labelAt j = some label := by
  unfold Document.labelAt at h ⊢
  obtain ⟨a, ha, rfl⟩ := Option.map_eq_some_iff.1 h
  have hj : j < doc.texts.length := (List.getElem?_eq_some_iff.1 ha).1
  rw [Document.addTexts, List.getElem?_append_left hj, ha]
  rfl

theorem Document.Captioned.addTexts (h : doc.Captioned) (item : BaseTextItem) :
    (doc.addTexts item).Captioned := h.keep rfl Document.labelAt_addTexts

/-- A caption that was just added is nobody's yet. -/
theorem Document.Captioned.fresh (h : doc.Captioned) :
    bodyChildRef ⟨.text, doc.texts.length⟩ ∉ doc.captions := by
  intro href
  obtain ⟨j, he, hj⟩ := h.named _ href
  cases bodyChildRef_injective he
  rw [Document.labelAt, List.getElem?_eq_none (Nat.le_refl _)] at hj
  cases hj

/-- No caption, or one that is nobody's yet. -/
def Document.Unowned (doc : Document) (captions : List Bytes) : Prop :=
  captions = [] ∨ ∃ j, captions = [bodyChildRef ⟨.text, j⟩] ∧
    bodyChildRef ⟨.text, j⟩ ∉ doc.captions ∧ doc.labelAt j = some .caption

/-- One owner more, with `captions` of its own. -/
theorem Document.Captioned.own {captions : List Bytes} (before after : List Bytes)
    (h : doc.Captioned) (hbefore : doc.captions = before ++ after)
    (hafter : doc'.captions = before ++ (captions ++ after))
    (hlabel : ∀ j, doc'.labelAt j = doc.labelAt j) (hnew : doc.Unowned captions) :
    doc'.Captioned := by
  rcases hnew with rfl | ⟨j, rfl, hj, hl⟩
  · exact h.keep (by rw [hafter, hbefore]; rfl) fun hk => by rw [hlabel]; exact hk
  · refine ⟨fun ref href => ?_, ?_⟩
    · have hmem : ref = bodyChildRef ⟨.text, j⟩ ∨ ref ∈ doc.captions := by
        rw [hafter] at href
        rw [hbefore]
        simp only [List.mem_append, List.mem_singleton] at href ⊢
        tauto
      rcases hmem with rfl | hmem
      · exact ⟨j, rfl, by rw [hlabel]; exact hl⟩
      · obtain ⟨k, he, hk⟩ := h.named ref hmem
        exact ⟨k, he, by rw [hlabel]; exact hk⟩
    · rw [hafter, List.singleton_append, List.nodup_middle, ← hbefore]
      exact List.nodup_cons.2 ⟨hj, h.nodup⟩

theorem Document.Captioned.addPictures {item : PictureItem} (h : doc.Captioned)
    (hnew : doc.Unowned item.captions) : (doc.addPictures item).Captioned :=
  .own (doc.pictures.flatMap (·.captions)) _ h rfl
    (by simp [Document.captions, Document.addPictures]) (fun _ => rfl) hnew

theorem Document.Captioned.addTables {item : TableItem} (h : doc.Captioned)
    (hnew : doc.Unowned item.captions) : (doc.addTables item).Captioned :=
  .own doc.captions [] h (by simp) (by simp [Document.captions, Document.addTables])
    (fun _ => rfl) hnew

end Captions

namespace Doctags

/-! ## The invariant between emissions -/

/-- The items are a forest: those under a group are stamped and in its
children, those under the body are ordered and not stamped yet. -/
structure Inv (doc : Document) (order : List BodyChild) (f : Forest BodyChild) : Prop where
  items : ∀ r, (doc.node r).isSome = true ↔ r ∈ f.nodes
  order : order = f.children none
  nested : ∀ {r g}, (r, some g) ∈ f.created → g.kind = .group ∧ ∃ node, doc.node r = some node ∧
    node.selfRef = bodyChildRef r ∧ node.parent = some (bodyChildRef g)
  children : ∀ {r node}, doc.node r = some node →
    node.children = (f.children (some r)).map bodyChildRef
  doc_body : doc.body.children = []
  captioned : doc.Captioned

theorem inv_init : Inv {} [] Forest.empty where
  items := by
    intro r
    obtain ⟨k, i⟩ := r
    cases k <;> simp [Document.node, Forest.empty, Forest.nodes]
  order := rfl
  nested := fun h => absurd h List.not_mem_nil
  children := by
    intro r node h
    obtain ⟨k, i⟩ := r
    cases k <;> simp [Document.node] at h
  doc_body := rfl
  captioned := ⟨fun _ h => absurd h List.not_mem_nil, List.nodup_nil⟩

section Grow
variable {doc doc' : Document} {order : List BodyChild} {f : Forest BodyChild} {r : BodyChild}

theorem Inv.fresh (h : Inv doc order f) (ha : Adds doc doc' r {}) : r ∉ f.nodes := by
  intro hr
  have := (h.items r).2 hr
  rw [ha.fresh] at this
  cases this

/-- Nothing hangs under an item that is not there. -/
theorem Inv.no_children (h : Inv doc order f) (ha : Adds doc doc' r {}) :
    f.children (some r) = [] := by
  rw [List.eq_nil_iff_forall_not_mem]
  intro x hx
  exact h.fresh ha (Forest.parent_mem (Forest.mem_children.1 hx))

/-- A new item under the body. -/
theorem Inv.addBody (h : Inv doc order f) (ha : Adds doc doc' r {}) (hc : doc'.Captioned) :
    ∃ f', Inv doc' (order ++ [r]) f' := by
  have hfresh := h.fresh ha
  refine ⟨f.add r none hfresh (by simp), ?_⟩
  refine ⟨fun r' => ?_, ?_, fun {r' g} hr' => ?_, fun {r' node} hr' => ?_, ?_, hc⟩
  · rw [Forest.nodes_add, ha.node_eq]
    by_cases he : r' = r
    · simp [he]
    · simp [he, h.items]
  · rw [Forest.children_add, if_pos rfl, h.order]
  · have hold : (r', some g) ∈ f.created := by simpa [Forest.add] using hr'
    obtain ⟨hg, node, hnode, hself⟩ := h.nested hold
    have hne : r' ≠ r := fun e => hfresh (e ▸ Forest.mem_nodes.2 ⟨_, hold⟩)
    exact ⟨hg, node, by rw [ha.node_eq, if_neg hne, hnode], hself⟩
  · rw [Forest.children_add, if_neg (by simp), List.append_nil]
    rw [ha.node_eq] at hr'
    split at hr'
    · rename_i he
      cases hr'
      rw [he, h.no_children ha]
      rfl
    · exact h.children hr'
  · rw [ha.body_eq, h.doc_body]

/-- A new item under a group. -/
theorem Inv.addNested (h : Inv doc order f) (ha : Adds doc doc' r {}) (hc : doc'.Captioned)
    {g : BodyChild} (hg : (doc.node g).isSome = true) (hk : g.kind = .group) :
    ∃ f', Inv (adopt g doc' r) order f' := by
  have hfresh := h.fresh ha
  have hgf : g ∈ f.nodes := (h.items g).1 hg
  have hgr : g ≠ r := fun e => hfresh (e ▸ hgf)
  have hp : ∀ q, some g = some q → q ∈ f.nodes := by
    rintro q ⟨⟩
    exact hgf
  have hnode : ∀ r', (adopt g doc' r).node r' = if r' = g then (doc.node g).map
      (Node.addChild (bodyChildRef r)) else if r' = r then
        some (Node.stamp (bodyChildRef r) (bodyChildRef g) {}) else doc.node r' := by
    intro r'
    unfold adopt
    rw [addItemChild_node _ _ _ _ (by rw [hk]; decide), stamp_node, ha.node_eq]
    by_cases h1 : r' = g
    · rw [if_pos h1, if_pos h1, if_neg (h1 ▸ hgr), if_neg (h1 ▸ hgr), h1]
    · rw [if_neg h1, if_neg h1]
      split_ifs <;> rfl
  refine ⟨f.add r (some g) hfresh hp, ?_⟩
  refine ⟨fun r' => ?_, ?_, fun {r' g'} hr' => ?_, fun {r' node} hr' => ?_, ?_, ?_⟩
  · rw [Forest.nodes_add, hnode]
    split_ifs with h1 h2
    · simp [h1, hg, hgf]
    · simp [h2]
    · simp [h2, h.items]
  · rw [Forest.children_add, if_neg (by simp), List.append_nil, h.order]
  · have hsplit : (r', some g') ∈ f.created ∨ (r' = r ∧ g' = g) := by
      simpa [Forest.add] using hr'
    rcases hsplit with hold | ⟨rfl, rfl⟩
    · obtain ⟨hg', node, hn, hself, hparent⟩ := h.nested hold
      have hne : r' ≠ r := fun e => hfresh (e ▸ Forest.mem_nodes.2 ⟨_, hold⟩)
      by_cases h1 : r' = g
      · refine ⟨hg', node.addChild (bodyChildRef r), ?_, hself, hparent⟩
        rw [hnode, if_pos h1, ← h1, hn]
        rfl
      · exact ⟨hg', node, by rw [hnode, if_neg h1, if_neg hne, hn], hself, hparent⟩
    · exact ⟨hk, _, by rw [hnode, if_neg (fun e => hgr e.symm), if_pos rfl], rfl, rfl⟩
  · rw [Forest.children_add]
    rw [hnode] at hr'
    split_ifs at hr' with h1 h2
    · obtain ⟨node', hn, rfl⟩ := Option.map_eq_some_iff.1 hr'
      rw [if_pos (by rw [h1]), h1, List.map_append, ← h.children hn]
      rfl
    · cases hr'
      rw [if_neg (by simpa using fun e => hgr (e.trans h2)), List.append_nil, h2, h.no_children ha]
      rfl
    · rw [if_neg (by simpa using fun e => h1 e.symm), List.append_nil]
      exact h.children hr'
  · simp [adopt, ha.body_eq, h.doc_body]
  · apply hc.keep
    · rw [adopt, addItemChild_captions, stampItem_captions]
    · intro j label hj
      rw [adopt, addItemChild_labelAt, stampItem_labelAt, hj]

end Grow

/-! ## Every emitter keeps it -/

section Emit
variable (page : PageContext) (raster : PageRaster) (byteSizeLong : TableCell → Nat)
variable {s : EmitState} {f : Forest BodyChild}

theorem inv_addText (h : Inv s.doc s.order f) {item : BaseTextItem} (hnode : item.node = {}) :
    ∃ f', Inv (s.addText item).doc (s.addText item).order f' :=
  h.addBody (hnode ▸ adds_texts s.doc item) (h.captioned.addTexts item)

theorem inv_emitCaption (h : Inv s.doc s.order f) (element : Element) :
    (∃ f', Inv (emitCaption page s element).1.doc (emitCaption page s element).1.order f') ∧
      (emitCaption page s element).1.doc.Unowned (emitCaption page s element).2 := by
  unfold emitCaption
  split
  · refine ⟨inv_addText h rfl, .inr ⟨_, rfl, h.captioned.fresh, ?_⟩⟩
    simp [EmitState.addText, Document.labelAt, Document.addTexts, captionItem, BaseTextItem.label,
      fillTextBase]
  · exact ⟨⟨f, h⟩, .inl rfl⟩

theorem inv_emitPicture (h : Inv s.doc s.order f) (element : Element) :
    ∃ f', Inv (emitPicture page raster byteSizeLong s element).doc
      (emitPicture page raster byteSizeLong s element).order f' := by
  obtain ⟨⟨f', hcaption⟩, hnew⟩ := inv_emitCaption page h element
  exact hcaption.addBody (adds_pictures _ _) (hcaption.captioned.addPictures hnew)

theorem inv_emitTable (h : Inv s.doc s.order f) (element : Element) :
    ∃ f', Inv (emitTable page byteSizeLong s element).doc
      (emitTable page byteSizeLong s element).order f' := by
  obtain ⟨⟨f', hcaption⟩, hnew⟩ := inv_emitCaption page h element
  exact hcaption.addBody (adds_tables _ _) (hcaption.captioned.addTables hnew)

theorem forall_ite_some {α : Type} {P : α → Prop} {c : Prop} [Decidable c] {a : α} {rest : Option α}
    (ha : P a) (hrest : ∀ x, rest = some x → P x) :
    ∀ x, (if c then some a else rest) = some x → P x := by
  intro x hx
  split at hx
  · cases hx
    exact ha
  · exact hrest x hx

theorem textItem_node {tag otsl : Bytes} {prov : ProvenanceItem} {text : Bytes} : ∀ item,
    textItem page tag otsl prov text = some item → item.node = {} := by
  unfold textItem
  iterate 14 refine forall_ite_some (P := fun item : BaseTextItem => item.node = {}) rfl ?_
  intro item h
  split at h
  · cases h
  · cases h
    rfl

theorem inv_emitElement (h : Inv s.doc s.order f) (element : Element)
    (forcedBox : Option BoundingBox) :
    ∃ f', Inv (emitElement page raster byteSizeLong s element forcedBox).1.doc
      (emitElement page raster byteSizeLong s element forcedBox).1.order f' := by
  unfold emitElement
  simp only
  split
  · exact inv_emitPicture page raster byteSizeLong h element
  · split
    · exact inv_emitTable page byteSizeLong h element
    · split
      · rename_i hitem
        exact inv_addText h (textItem_node page _ hitem)
      · exact ⟨f, h⟩

theorem inv_emitKeyValueRegion (h : Inv s.doc s.order f) (chunk : Bytes) :
    ∃ f', Inv (emitKeyValueRegion page s chunk).doc (emitKeyValueRegion page s chunk).order f' :=
  h.addBody (adds_keyValueItems _ _) (h.captioned.keep rfl id)

/-- A group with nothing in it yet. -/
theorem inv_addGroup (h : Inv s.doc s.order f) (group : GroupItem) (hnode : group.toNode = {}) :
    (∃ f', Inv (s.doc.addGroups group) (s.order ++ [⟨.group, s.doc.groups.length⟩]) f') ∧
      ((s.doc.addGroups group).node ⟨.group, s.doc.groups.length⟩).isSome = true := by
  have ha := adds_groups s.doc group
  rw [hnode] at ha
  refine ⟨h.addBody ha (h.captioned.keep rfl id), ?_⟩
  rw [ha.node_eq, if_pos rfl]
  rfl

theorem adopt_isSome {doc : Document} {g r r' : BodyChild} (h : (doc.node r').isSome = true)
    (hk : g.kind = .group) : ((adopt g doc r).node r').isSome = true := by
  unfold adopt
  rw [addItemChild_node _ _ _ _ (by rw [hk]; decide), stamp_node]
  split_ifs <;> simpa using h

theorem inv_listItems (ordered : Bool) {group : BodyChild} (hk : group.kind = .group)
    (items : List (Bytes × Nat)) :
    ∀ {doc : Document} {order : List BodyChild} {f : Forest BodyChild},
    Inv doc order f → (doc.node group).isSome = true →
    ∃ f', Inv (items.foldl (emitListItem page ordered group) doc) order f' := by
  induction items with
  | nil => intro doc order f h _; exact ⟨f, h⟩
  | cons item items ih =>
    intro doc order f h hg
    rw [List.foldl_cons]
    unfold emitListItem addListItem
    have ha := adds_texts doc (.listItem (fillTextBase page .listItem (provWithCharspan page
      (locsBox (firstLocs item.1) page) (charLength (innerText item.1))) (innerText item.1)) ordered
      (if (if ordered then decimal (item.2 + 1) ++ ascii "." else []).isEmpty then none
        else some (if ordered then decimal (item.2 + 1) ++ ascii "." else [])))
    obtain ⟨f', h'⟩ := h.addNested ha (h.captioned.addTexts _) hg hk
    refine ih h' (adopt_isSome ?_ hk)
    rw [ha.node_eq]
    split_ifs <;> simp [hg]

theorem inv_emitListGroup (h : Inv s.doc s.order f) (chunk : Bytes) (ordered : Bool) :
    ∃ f', Inv (emitListGroup page s chunk ordered).doc
      (emitListGroup page s chunk ordered).order f' := by
  obtain ⟨⟨f', h'⟩, hg⟩ := inv_addGroup h
    { name := some (ascii "list"), label := .list, contentLayer := .body } rfl
  exact inv_listItems page ordered rfl _ h' hg

/-- An element without a caption emits nothing, or one item. -/
theorem emitElement_one {element : Element} (hcaption : element.hasCaption = false)
    (forcedBox : Option BoundingBox) :
    (emitElement page raster byteSizeLong s element forcedBox).1 = s ∨
    ∃ ref, Adds s.doc (emitElement page raster byteSizeLong s element forcedBox).1.doc ref {} ∧
      (emitElement page raster byteSizeLong s element forcedBox).1.order = s.order ++ [ref] ∧
      (s.doc.Captioned →
      (emitElement page raster byteSizeLong s element forcedBox).1.doc.Captioned) := by
  have hnone : emitCaption page s element = (s, []) := by
    rw [emitCaption, hcaption, if_neg Bool.false_ne_true]
  unfold emitElement
  dsimp only
  split
  · right
    unfold emitPicture
    rw [hnone]
    exact ⟨_, adds_pictures _ _, rfl, fun h => h.addPictures (.inl rfl)⟩
  · split
    · right
      unfold emitTable
      rw [hnone]
      exact ⟨_, adds_tables _ _, rfl, fun h => h.addTables (.inl rfl)⟩
    · split
      · rename_i item hitem
        exact .inr ⟨_, textItem_node page item hitem ▸ adds_texts s.doc item, rfl,
          fun h => h.addTexts item⟩
      · exact .inl rfl

theorem inlineChildren_noCaption : ∀ (fuel : Nat) (rest : Bytes),
    ∀ child ∈ inlineChildren fuel rest, child.hasCaption = false := by
  intro fuel
  induction fuel with
  | zero => intro rest child h; cases h
  | succ fuel ih =>
    intro rest child h
    unfold inlineChildren at h
    split at h
    · cases h
    · split at h
      · exact ih _ child h
      · split at h
        · cases h
        · dsimp only at h
          split at h
          · exact ih _ child h
          · split at h
            · exact ih _ child h
            · rcases List.mem_cons.1 h with rfl | h
              · rfl
              · exact ih _ child h

theorem inv_emitInlineChild (h : Inv s.doc s.order f) (box : BoundingBox) {group : BodyChild}
    (hk : group.kind = .group) (hg : (s.doc.node group).isSome = true) {child : Element}
    (hcaption : child.hasCaption = false) :
    (∃ f', Inv (emitInlineChild page raster byteSizeLong box group s child).doc
      (emitInlineChild page raster byteSizeLong box group s child).order f') ∧
    ((emitInlineChild page raster byteSizeLong box group s child).doc.node group).isSome =
      true := by
  unfold emitInlineChild
  dsimp only
  rcases emitElement_one page raster byteSizeLong (s := { s with order := [] }) hcaption (some box)
    with hr | ⟨ref, ha, horder, hc⟩
  · rw [hr]
    exact ⟨⟨f, h⟩, hg⟩
  · rw [horder]
    refine ⟨h.addNested ha (hc h.captioned) hg hk, adopt_isSome ?_ hk⟩
    rw [ha.node_eq]
    split_ifs <;> simp [hg]

theorem inv_inlineChildren (box : BoundingBox) {group : BodyChild} (hk : group.kind = .group)
    (children : List Element) : (∀ child ∈ children, child.hasCaption = false) →
    ∀ {s : EmitState} {f : Forest BodyChild}, Inv s.doc s.order f →
      (s.doc.node group).isSome = true →
    ∃ f', Inv (children.foldl (emitInlineChild page raster byteSizeLong box group) s).doc
      (children.foldl (emitInlineChild page raster byteSizeLong box group) s).order f' := by
  induction children with
  | nil => intro _ s f h _; exact ⟨f, h⟩
  | cons child children ih =>
    intro hcaption s f h hg
    obtain ⟨⟨f', h'⟩, hg'⟩ := inv_emitInlineChild page raster byteSizeLong h box hk hg
      (hcaption child List.mem_cons_self)
    exact ih (fun child hc => hcaption child (List.mem_cons_of_mem _ hc)) h' hg'

theorem inv_emitInlineGroup (h : Inv s.doc s.order f) (chunk : Bytes) :
    ∃ f', Inv (emitInlineGroup page raster byteSizeLong s chunk).doc
      (emitInlineGroup page raster byteSizeLong s chunk).order f' := by
  obtain ⟨⟨f', h'⟩, hg⟩ := inv_addGroup h
    { name := some (ascii "group"), label := .inline_, contentLayer := .body } rfl
  unfold emitInlineGroup
  dsimp only
  apply inv_inlineChildren page raster byteSizeLong _ rfl _ (inlineChildren_noCaption _ _)
  · exact h'
  · exact hg

/-- One emission. -/
theorem inv_emit {s : MapState} (h : Inv s.doc s.order f) (emission : Emission) :
    ∃ f', Inv (emit page raster byteSizeLong s emission).doc
      (emit page raster byteSizeLong s emission).order f' := by
  cases emission with
  | element element => exact inv_emitElement page raster byteSizeLong h element none
  | container token chunk =>
    unfold emit
    dsimp only
    split
    · exact inv_emitKeyValueRegion page h chunk
    · split
      · exact inv_emitInlineGroup page raster byteSizeLong h chunk
      · exact inv_emitListGroup page h chunk _

/-- A whole response. -/
theorem inv_emitAll (emissions : List Emission) : ∀ {s : MapState} {f : Forest BodyChild},
    Inv s.doc s.order f → ∃ f', Inv (emitAll page raster byteSizeLong s emissions).doc
      (emitAll page raster byteSizeLong s emissions).order f' := by
  induction emissions with
  | nil => intro s f h; exact ⟨f, h⟩
  | cons emission emissions ih =>
    intro s f h
    obtain ⟨f', h'⟩ := inv_emit page raster byteSizeLong h emission
    exact ih h'

end Emit

/-! ## The finished page -/

theorem finalize_represents {doc : Document} {order : List BodyChild} {f : Forest BodyChild}
    (page : PageContext) (h : Inv doc order f) :
    Represents (finalizeDocument doc page order) f := by
  have hnode := finalize_node doc page order
  have hsome : ∀ r, ((finalizeDocument doc page order).node r).isSome = (doc.node r).isSome := by
    intro r
    rw [hnode]
    split <;> simp
  refine ⟨fun r => by rw [hsome, h.items], fun {r p} hr => ?_, fun {p} hp => ?_⟩
  · obtain ⟨node, hn⟩ := Option.isSome_iff_exists.1 ((h.items r).2 (Forest.mem_nodes.2 ⟨p, hr⟩))
    cases p with
    | none =>
      have hmem : r ∈ order := h.order ▸ Forest.mem_children.2 hr
      exact ⟨node.stamp (bodyChildRef r) bodyRef, by rw [hnode, if_pos hmem, hn]; rfl, rfl, rfl⟩
    | some g =>
      have hmem : r ∉ order := by
        rw [h.order]
        intro hm
        cases Forest.parent_unique hr (Forest.mem_children.1 hm)
      obtain ⟨-, node', hn', hself, hparent⟩ := h.nested hr
      exact ⟨node', by rw [hnode, if_neg hmem, hn'], hself, hparent⟩
  · cases p with
    | none => rw [Document.childrenOf, finalize_children, h.doc_body, List.nil_append, h.order]
    | some r =>
      have hr : (doc.node r).isSome = true := by rw [← hsome]; exact hp r rfl
      obtain ⟨node, hn⟩ := Option.isSome_iff_exists.1 hr
      rw [Document.childrenOf, hnode, hn, ← h.children hn]
      split <;> rfl

theorem finalize_captioned {doc : Document} (page : PageContext) (order : List BodyChild)
    (h : doc.Captioned) : (finalizeDocument doc page order).Captioned := by
  have hfold : ∀ (order : List BodyChild) (doc : Document), doc.Captioned → (order.foldl
      (fun doc child =>
        addBodyChild (stampItem doc child bodyRef) (bodyChildRef child)) doc).Captioned := by
    intro order
    induction order with
    | nil => intro doc h; exact h
    | cons child order ih =>
      intro doc h
      refine ih _ (h.keep (stampItem_captions doc child bodyRef) fun {j label} hj => ?_)
      exact (stampItem_labelAt doc child bodyRef j).trans hj
  have hstart : (startBody doc page).Captioned := h.keep rfl id
  exact (hfold order _ hstart).keep rfl id

section Order
variable (page : PageContext) (raster : PageRaster) (byteSizeLong : TableCell → Nat)

theorem emitElement_order (s : EmitState) (element : Element) (forcedBox : Option BoundingBox) :
    s.order <+: (emitElement page raster byteSizeLong s element forcedBox).1.order := by
  have hcaption : s.order <+: (emitCaption page s element).1.order := by
    unfold emitCaption
    split
    · exact List.prefix_append _ _
    · exact List.prefix_refl _
  unfold emitElement
  dsimp only
  split
  · exact hcaption.trans (List.prefix_append _ _)
  · split
    · exact hcaption.trans (List.prefix_append _ _)
    · split
      · exact List.prefix_append _ _
      · exact List.prefix_refl _

theorem inlineChildren_order (box : BoundingBox) (group : BodyChild) (children : List Element) :
    ∀ s : EmitState,
    (children.foldl (emitInlineChild page raster byteSizeLong box group) s).order = s.order := by
  induction children with
  | nil => intro s; rfl
  | cons child children ih => intro s; exact ih _

/-- An emission orders its items behind those before it. -/
theorem emit_order (s : MapState) (emission : Emission) :
    s.order <+: (emit page raster byteSizeLong s emission).order := by
  cases emission with
  | element element => exact emitElement_order page raster byteSizeLong s.toEmitState element none
  | container token chunk =>
    unfold emit
    dsimp only
    split
    · exact List.prefix_append _ _
    · split
      · unfold emitInlineGroup
        dsimp only
        rw [inlineChildren_order]
        exact List.prefix_append _ _
      · exact List.prefix_append _ _

theorem emitAll_order (emissions : List Emission) : ∀ s : MapState,
    s.order <+: (emitAll page raster byteSizeLong s emissions).order := by
  induction emissions with
  | nil => intro s; exact List.prefix_refl _
  | cons emission emissions ih =>
    intro s
    exact (emit_order page raster byteSizeLong s emission).trans (ih _)

/-- **The references of a DocTags page are a tree**, whatever the response.
Parents are the body or a group; what the first emissions put under the body
comes first in its children; a caption reference names a caption item, and
no item is the caption of two owners. -/
theorem doctags_refTree {warnings warnings' : Option (List PageWarning)} {text : Bytes}
    {doc : Document}
    (hmap : mapDoctags page raster byteSizeLong warnings text = .ok (doc, warnings')) :
    (∃ created, RefTree doc created ∧ ∀ r, r ∈ created ↔ r.index < doc.size r.kind) ∧
    (∀ r node, doc.node r = some node → node.parent = some bodyRef ∨
      ∃ g, g.kind = .group ∧ (doc.node g).isSome = true ∧ node.parent = some (bodyChildRef g)) ∧
    (∀ emissions, emissions <+: Scan.emissions text →
      (emitAll page raster byteSizeLong { warnings := warnings } emissions).order.map
        bodyChildRef <+:
        doc.body.children) ∧
    (∀ ref ∈ doc.captions, ∃ j, ref = bodyChildRef ⟨.text, j⟩ ∧ doc.labelAt j = some .caption) ∧
    doc.captions.Nodup := by
  obtain ⟨f, hinv⟩ := inv_emitAll page raster byteSizeLong (Scan.emissions text)
    (s := { warnings := warnings }) inv_init
  unfold mapDoctags at hmap
  split at hmap
  · cases hmap
  · dsimp only at hmap
    split at hmap
    · cases hmap
    · cases hmap
      have hrep := finalize_represents page hinv
      have hcap := finalize_captioned page
        (emitAll page raster byteSizeLong { warnings := warnings } (Scan.emissions text)).order
        hinv.captioned
      refine ⟨⟨f.nodes, RefTree.of_represents hrep, fun r => ?_⟩, fun r node hr => ?_, ?_,
        hcap.named, hcap.nodup⟩
      · rw [← node_isSome, hrep.items]
      · obtain ⟨p, hp⟩ := Forest.mem_nodes.1 ((hrep.items r).1 (by rw [hr]; rfl))
        obtain ⟨node', hn, -, hparent⟩ := hrep.stamped hp
        rw [hr] at hn
        cases hn
        cases p with
        | none => exact .inl hparent
        | some g =>
          exact .inr ⟨g, (hinv.nested hp).1, (hrep.items g).2 (Forest.parent_mem hp), hparent⟩
      · rintro emissions ⟨rest, hrest⟩
        rw [finalize_children, hinv.doc_body, List.nil_append, ← hrest, emitAll, emitAll,
          List.foldl_append]
        exact (emitAll_order page raster byteSizeLong rest _).map bodyChildRef

end Order

/-- A list, a picture with a caption, an inline group left open and a stray
close tag. -/
def sampleResponse : Bytes :=
  ascii "<ordered_list><list_item>a</list_item></ordered_list></text>" ++
    ascii "<picture><loc_1><caption>Fig</caption></picture><inline><text>b</text><formula>c"

theorem doctags_refTree_sample : ∃ doc warnings,
    mapDoctags samplePage sampleRaster (fun cell => cell.text.length + 20) none sampleResponse =
      .ok (doc, warnings) ∧
    (∃ created, RefTree doc created ∧ ∀ r, r ∈ created ↔ r.index < doc.size r.kind) ∧
    doc.captions.Nodup := by
  have hok : (mapDoctags samplePage sampleRaster (fun cell => cell.text.length + 20) none
      sampleResponse).isOk = true := by
    decide +kernel
  cases hmap : mapDoctags samplePage sampleRaster (fun cell => cell.text.length + 20) none
      sampleResponse with
  | error message => rw [hmap] at hok; cases hok
  | ok r =>
    obtain ⟨doc, warnings⟩ := r
    have htree := doctags_refTree samplePage sampleRaster _ hmap
    exact ⟨doc, warnings, rfl, htree.1, htree.2.2.2.2⟩

end Doctags

end VlmConvert.L3

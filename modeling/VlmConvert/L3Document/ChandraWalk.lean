import VlmConvert.L3Document.HeadingLevels
import VlmConvert.L3Document.Chandra

/-!
# The Chandra walk

`walk`, `block`, `list`, `table` and `picture` call each other over the element
tree (`src/mapping/chandra.cpp:258-741`). Only `picture` touches the flags
`skip_img_`, `skip_chem_` and `t_skip_chem`: it sets them for the content it
walks and sets them back by hand.

Results: `enough`, every part of the walk is `Sound`. In any picture the member
and the thread's flag say whether that picture holds exactly one `<chem>`, at
every point an exception may come and at the end; every section header made is
at a level from 1 on; and fuel of three times the height of the tree lets the
walk come to its end.
-/
namespace VlmConvert.L3.Chandra

open Bytes L1 L2 Doclang Interruptible

/-! ## The walk -/

/-- A node `walk` passes by: inside a picture an `<img>` describes it, and its
only `<chem>` is its molecule.
mirrors src/mapping/chandra.cpp:262-265 -/
def described (s : State) (node : MarkupNode) : Bool :=
  !node.isText &&
    ((s.skipImg && node.tag == ascii "img") || (s.skipChem && node.tag == ascii "chem"))

/-- What a block with a label or a box of its own hands on.
mirrors src/mapping/chandra.cpp:287-295 -/
def ownProvenance (env : Env) (node : MarkupNode) : Provenance where
  box := provenance env node
  textOwner := !(node.hasAttr (ascii "data-label") &&
    (["Table", "List-Group", "Figure", "Image", "Diagram", "Chemical-Block",
      "Form"].map ascii).contains (node.attr (ascii "data-label") []))

/-- The content of a picture: `<img>` and the only `<chem>` are passed by.
mirrors src/mapping/chandra.cpp:732-736 -/
def enterPicture (dropChem : Bool) (s : State) : State :=
  { s with
    skipImg := true, skipChem := dropChem, tSkipChem := dropChem
    walked := dropChem :: s.walked }

/-- mirrors src/mapping/chandra.cpp:738-740 -/
def leavePicture (saved : State) (s : State) : State :=
  { s with skipImg := saved.skipImg, skipChem := saved.skipChem, tSkipChem := saved.skipChem
           walked := s.walked.tail }

section Walk
variable (env : Env)

/-- The headers from `before` on have the level of an `<hN>`.
mirrors src/mapping/chandra.cpp:349-353 -/
def setTagLevel (tag : Bytes) (before : Nat) : Builder Unit :=
  if isHeadingTag tag then setHeadingLevels env before ((tag.getD 1 0).toNat - 0x30 : Nat)
  else pure ()

mutual
/-- mirrors src/mapping/chandra.cpp:258-275 -/
def walk : Nat → List MarkupNode → Option BodyChild → Option Provenance → DocItemLabel →
    Builder (Option Provenance)
  | 0, _, _, _, _ => exhausted
  | n + 1, children, parent, prov, label => do
    let left ← children.foldlM (fun (left : List Run × Option Provenance) node => do
      point
      let s ← state
      if described s node then pure left
      else if node.isText || inlineNode node then
        pure (left.1 ++ inlineRuns s.tSkipChem {} [] node, left.2)
      else do
        let prov ← emitRuns env left.1 parent left.2 label
        let prov ← block n node parent prov label
        pure ([], prov)) ([], prov)
    emitRuns env left.1 parent left.2 label
/-- mirrors src/mapping/chandra.cpp:282-356 -/
def block : Nat → MarkupNode → Option BodyChild → Option Provenance → DocItemLabel →
    Builder (Option Provenance)
  | 0, _, _, _, _ => exhausted
  | n + 1, node, parent, outer, outerLabel => do
    point
    let hasLabel := node.hasAttr (ascii "data-label")
    let layoutLabel := node.attr (ascii "data-label") []
    let labelled := fun name : String => hasLabel && layoutLabel == ascii name
    let own := node.hasAttr (ascii "data-bbox") || hasLabel
    let prov := if own then some (ownProvenance env node) else outer
    let label :=
      if own then (layoutLabelOf (if hasLabel then layoutLabel else [])).getD .text else outerLabel
    let tag := node.tag
    (fun claimed => if own then outer else claimed) <$> (
      if labelled "Figure" || labelled "Image" || labelled "Diagram" || labelled "Chemical-Block" ||
          tag == ascii "figure" || tag == ascii "img" || tag == ascii "chem" then
        picture n node parent prov
      else if tag == ascii "table" then table n node parent prov
      else if tag == ascii "ul" || tag == ascii "ol" || (labelled "List-Group" &&
          !(descendants node).any fun d => d.tag == ascii "ul" || d.tag == ascii "ol") then do
        list n node parent
        pure prov
      else if tag == ascii "pre" || tag == ascii "code" || (labelled "Code-Block" &&
          !(descendants node).any fun d => d.tag == ascii "pre") then do
        let _ ← op env (.code (textProv prov).1 (stripChars (htmlText node) [0x0A, 0x0D])
          (node.attr (ascii "class") []) parent)
        pure (textProv prov).2
      else if tag == ascii "math" then do
        let _ ← op env (.formula (textProv prov).1 (pyStrip (htmlText node)) parent)
        pure (textProv prov).2
      else if !kBlockTags.contains tag && own then do
        let s ← state
        let runs := inlineRuns s.tSkipChem {} [] node
        let label := match runs with
          | [run] => if hasLabel then label else run.label
          | _ => label
        emitRuns env runs parent prov label
      else if labelled "Form" || tag == ascii "form" then do
        let region ← op env (.fieldRegion (takeBox prov).1 parent)
        let _ ← walk n node.children region none .text
        pure (takeBox prov).2
      else if tag == ascii "caption" || tag == ascii "figcaption" || labelled "Caption" ||
          labelled "Footnote" then do
        let captionLabel := if labelled "Footnote" then .footnote else .caption
        let s ← state
        let prov ← walk n node.children parent prov captionLabel
        linkCaptions env s.out.writer.doc.texts.length captionLabel parent
        pure prov
      else if tag == ascii "script" || tag == ascii "style" || tag == ascii "head" ||
          tag == ascii "hr" then pure prov
      else do
        let label := if isHeadingTag tag && label == .text then .sectionHeader else label
        let s ← state
        let prov ← walk n node.children parent prov label
        setTagLevel env tag s.out.writer.doc.texts.length
        pure prov)
/-- mirrors src/mapping/chandra.cpp:527-586 -/
def list : Nat → MarkupNode → Option BodyChild → Builder Unit
  | 0, _, _ => exhausted
  | n + 1, node, parent => do
    let group ← op env (.listGroup parent)
    let ordered := node.tag == ascii "ol"
    let _ ← (listItems node).foldlM (fun number child => do
      if isBlankText child then pure number
      else if !child.isText && (child.tag == ascii "ul" || child.tag == ascii "ol") then do
        list n child group
        pure number
      else do
        let item ← op env (.listItem none [] ordered
          (if ordered then decimal number ++ [0x2E] else []) group)
        let _ ← walk n (itemContent child) item none .text
        pure (number + 1)) (listNumber node)
    pure ()
/-- mirrors src/mapping/chandra.cpp:605-639 -/
def table : Nat → MarkupNode → Option BodyChild → Option Provenance → Builder (Option Provenance)
  | 0, _, _, _ => exhausted
  | n + 1, node, parent, prov => do
    let sources := tableSources node
    if sources.isEmpty then walk n node.children parent prov .text
    else do
      let table ← op env (.table (takeBox prov).1 [] parent)
      let richRefs ← sources.foldlM (fun refs source => do
        if (descendants source.2).all fun d => d.tag == ascii "span" then pure (refs ++ [[]])
        else do
          let group ← op env (.group (ascii "group") .unspecified table)
          let _ ← walk n source.2.children group none .text
          let s ← state
          pure (refs ++ [group.elim [] fun ref =>
            if 0 < s.out.writer.childCount ref then bodyChildRef ref else []])) []
      edit (fillTable env table (sources.map Prod.fst) richRefs)
      (node.children.filter isTableCaption).foldlM (fun _ child => do
        let _ ← block n child table none .caption
        pure ()) ()
      pure (takeBox prov).2
/-- mirrors src/mapping/chandra.cpp:672-741 -/
def picture : Nat → MarkupNode → Option BodyChild → Option Provenance → Builder (Option Provenance)
  | 0, _, _, _ => exhausted
  | n + 1, node, parent, prov => do
    let picture ← op env (.picture (takeBox prov).1 parent)
    edit (describePicture picture (description (named (ascii "img") node)))
    let chemicals := named (ascii "chem") node
    edit (setMolecule picture chemicals)
    if node.tag == ascii "chem" then pure (takeBox prov).2
    else do
      let saved ← state
      update (enterPicture (chemicals.length == 1))
      let _ ← walk n (pictureContent node) picture none .text
      update (leavePicture saved)
      pure (takeBox prov).2
end

end Walk

/-! ## What a step keeps -/

/-- `t_skip_chem` says whether the innermost picture being walked holds exactly
one `<chem>`. -/
def State.Mirrored (s : State) : Prop := s.tSkipChem = s.walked.headD false

/-- Inside the pictures `stack` the two flags agree. -/
structure Walking (stack : List Bool) (s : State) : Prop where
  member : s.skipChem = stack.headD false
  thread : s.tSkipChem = stack.headD false
  walked : s.walked = stack

/-- The headers added to `start` are at levels from 1 on. -/
def Leveling (start : LayoutWriter) (s : State) : Prop :=
  start.doc.Leveled → s.out.writer.doc.Leveled

/-- A program that keeps the flags of any picture, and the levels. -/
structure Sound {α : Type} (m : Builder α) : Prop where
  flags : ∀ stack, Keeps (Walking stack) State.Mirrored m
  levels : ∀ start, Keeps (Leveling start) (fun _ => True) m

section Steps
variable {stack : List Bool} {α β : Type}

theorem Walking.mirrored {s : State} (h : Walking stack s) : s.Mirrored := by
  rw [State.Mirrored, h.thread, h.walked]

theorem sound_pure (a : α) : Sound (pure a) := ⟨fun _ => keeps_pure a, fun _ => keeps_pure a⟩

theorem Sound.bind {m : Builder α} {f : α → Builder β} (h : Sound m) (hf : ∀ a, Sound (f a)) :
    Sound (m >>= f) :=
  ⟨fun stack => (h.flags stack).bind fun a => (hf a).flags stack,
    fun start => (h.levels start).bind fun a => (hf a).levels start⟩

theorem Sound.map {m : Builder α} (h : Sound m) (f : α → β) : Sound (f <$> m) :=
  ⟨fun stack => (h.flags stack).map f, fun start => (h.levels start).map f⟩

theorem Sound.ite {c : Prop} [Decidable c] {m m' : Builder α} (h : Sound m) (h' : Sound m') :
    Sound (if c then m else m') := by
  split
  · exact h
  · exact h'

theorem sound_state : Sound state := ⟨fun _ => keeps_state, fun _ => keeps_state⟩

theorem sound_point : Sound point :=
  ⟨fun _ => keeps_point fun _ h => h.mirrored, fun _ => keeps_point fun _ _ => trivial⟩

theorem sound_foldlM {f : β → α → Builder β} (l : List α) (hf : ∀ b, ∀ a ∈ l, Sound (f b a))
    (b : β) :
    Sound (l.foldlM f b) :=
  ⟨fun stack => keeps_foldlM l (fun b a ha => (hf b a ha).flags stack) b,
    fun start => keeps_foldlM l (fun b a ha => (hf b a ha).levels start) b⟩

/-- A change of the writer that keeps the levels. -/
theorem sound_write {f : ChandraWriter → ChandraWriter}
    (hf : ∀ out, out.writer.doc.Leveled → (f out).writer.doc.Leveled) :
    Sound (update fun s => { s with out := f s.out }) :=
  ⟨fun _ => keeps_update fun _ h => ⟨h.member, h.thread, h.walked⟩,
    fun _ => keeps_update fun s h hstart => hf s.out (h hstart)⟩

variable (env : Env)

theorem sound_op {o : LayoutWriter.Op} (ho : o.Leveled) : Sound (op env o) := by
  have hstep : ∀ w : LayoutWriter, w.doc.Leveled →
      (LayoutWriter.apply env.page env.raster env.byteSizeLong w o).1.doc.Leveled :=
    fun w => LayoutWriter.apply_leveled env.page env.raster env.byteSizeLong o ho
  refine sound_point.bind fun _ => ⟨fun stack s hs => ?_, fun start s hs => ?_⟩
  · refine (meets_state (Q := fun a s' => a = s ∧ s' = s) ⟨rfl, rfl⟩).bind ?_
    rintro _ _ ⟨rfl, rfl⟩
    exact (meets_update ⟨hs.member, hs.thread, hs.walked⟩).bind fun _ s' hs' => meets_pure hs'
  · refine (meets_state (Q := fun a s' => a = s ∧ s' = s) ⟨rfl, rfl⟩).bind ?_
    rintro _ _ ⟨rfl, rfl⟩
    exact (meets_update fun hstart => hstep _ (hs hstart)).bind fun _ s' hs' => meets_pure hs'

theorem sound_edit {f : ChandraWriter → ChandraWriter}
    (hf : ∀ out, (f out).writer.doc.texts = out.writer.doc.texts) : Sound (edit f) := by
  refine sound_point.bind fun _ => sound_write fun out h => leveled_congr h ?_
  rw [Document.headerLevels, hf out, ← Document.headerLevels]

theorem sound_setHeadingLevels (before : Nat) {level : Int} (hlevel : ValidLevel level) :
    Sound (setHeadingLevels env before level) := by
  refine sound_state.bind fun s => sound_foldlM _ (fun _ i _ => ?_) ()
  exact (sound_op env (o := .setHeadingLevel i level) hlevel).bind fun _ => sound_pure ()

theorem sound_setLayer (item : Option BodyChild) (layer : ContentLayer) :
    Sound (setLayer env item layer) := by
  cases item with
  | none => exact sound_pure ()
  | some ref =>
      exact (sound_op env (o := .setContentLayer ref layer) trivial).bind fun _ => sound_pure ()

theorem sound_outerItem (label : DocItemLabel) (layer : ContentLayer) (parent : Option BodyChild)
    (prov : Option Provenance) : Sound (outerItem env label layer parent prov) := by
  unfold outerItem
  split
  · exact sound_pure _
  · refine Sound.bind (sound_op env trivial) fun item => ?_
    exact (sound_setLayer env item layer).bind fun _ => sound_pure _

theorem sound_groupRuns (kept : List Run) (label : DocItemLabel) (layer : ContentLayer)
    (parent : Option BodyChild) (prov : Option Provenance) :
    Sound (groupRuns env kept label layer parent prov) := by
  unfold groupRuns
  split
  · refine (sound_outerItem env label layer parent prov).bind fun outer => ?_
    refine Sound.bind (sound_op env trivial) fun group => ?_
    exact (sound_setLayer env group layer).bind fun _ => sound_pure _
  · exact sound_pure _

theorem sound_emitRun (alone : Bool) (label : DocItemLabel) (layer : ContentLayer)
    (parent : Option BodyChild) (prov : Option Provenance) (run : Run) :
    Sound (emitRun env alone label layer parent prov run) := by
  unfold emitRun
  refine sound_state.bind fun s => ?_
  dsimp only
  split
  · exact Sound.bind (sound_op env trivial) fun _ => sound_pure _
  · refine Sound.bind (sound_op env trivial) fun item => ?_
    exact (sound_setLayer env item layer).bind fun _ => sound_pure _

theorem sound_emitRuns (runs : List Run) (parent : Option BodyChild) (prov : Option Provenance)
    (label : DocItemLabel) : Sound (emitRuns env runs parent prov label) := by
  unfold emitRuns
  refine sound_point.bind fun _ => sound_state.bind fun s => ?_
  dsimp only
  split
  · exact sound_pure _
  · refine (sound_groupRuns env _ _ _ _ _).bind fun outer => ?_
    refine (sound_foldlM _ (fun prov run _ => sound_emitRun env _ _ _ _ prov run) _).bind
      fun prov => ?_
    exact (sound_setHeadingLevels env _ ⟨by decide, by decide⟩).bind fun _ => sound_pure _

theorem sound_linkCaptions (before : Nat) (label : DocItemLabel) (parent : Option BodyChild) :
    Sound (linkCaptions env before label parent) := by
  unfold linkCaptions
  refine sound_state.bind fun s => ?_
  split
  · split
    · refine sound_foldlM _ (fun _ i _ => sound_state.bind fun s => ?_) ()
      split
      · refine (sound_op env ?_).bind fun _ => sound_pure ()
        split
        · trivial
        · trivial
      · exact sound_pure ()
    · exact sound_pure ()
  · exact sound_pure ()

/-- An `<hN>` is at a level from 1 to 6. -/
theorem sound_setTagLevel (tag : Bytes) (before : Nat) : Sound (setTagLevel env tag before) := by
  unfold setTagLevel
  split
  · rename_i htag
    refine sound_setHeadingLevels env before ?_
    unfold isHeadingTag at htag
    split at htag
    · rename_i h digit
      have hdigit : 0x31 ≤ digit := by
        simp only [Bool.and_eq_true, decide_eq_true_eq] at htag
        exact htag.1.2
      have := UInt8.le_iff_toNat_le.1 hdigit
      have := digit.toNat_lt
      have h31 : (0x31 : UInt8).toNat = 49 := rfl
      simp only [List.getD_cons_succ, List.getD_cons_zero, ValidLevel]
      omega
    · cases htag
  · exact sound_pure ()

/-- The content of a picture is walked with the picture's own flag, and the
flags are those of the outer picture again behind it. -/
theorem sound_inPicture {m : Builder α} (h : Sound m) (dropChem : Bool) (b : β) :
    Sound (do
      let saved ← state
      update (enterPicture dropChem)
      let _ ← m
      update (leavePicture saved)
      pure b) := by
  constructor
  · intro stack s hs
    refine (meets_state (Q := fun a s' => a = s ∧ s' = s) ⟨rfl, rfl⟩).bind ?_
    rintro _ _ ⟨rfl, rfl⟩
    refine (meets_update (Q := fun _ => Walking (dropChem :: stack)) ?_).bind
      fun _ inner hinner => ?_
    · exact ⟨rfl, rfl, by rw [enterPicture, hs.walked]⟩
    · refine (h.flags (dropChem :: stack) inner hinner).bind fun _ left hleft => ?_
      refine (meets_update (Q := fun _ => Walking stack) ?_).bind fun _ s' hs' => meets_pure hs'
      exact ⟨hs.member, hs.member, by rw [leavePicture, hleft.walked]; rfl⟩
  · intro start
    refine keeps_state.bind fun saved => Keeps.bind (keeps_update fun _ hs => hs) fun _ => ?_
    refine (h.levels start).bind fun _ => Keeps.bind (keeps_update fun _ hs => hs) fun _ =>
      keeps_pure b

end Steps

/-! ## The fuel -/

/-- A cell stands below its table. -/
theorem height_source {node : MarkupNode} {source : SpanCell × MarkupNode}
    (h : source ∈ tableSources node) :
    height source.2 < height node := by
  obtain ⟨p, hp, rfl⟩ := List.mem_map.1 h
  have hbox : p.box.value.node ∈ tableElements node := by
    rw [← chandraBoxes_nodes]
    obtain ⟨boxes, hrow, hbox⟩ := Placement.mem_place_boxes pastGuard hp
    exact List.mem_map_of_mem (List.mem_flatten_of_mem (List.mem_of_getElem? hrow) hbox)
  obtain ⟨row, hrow, hcell⟩ := List.mem_flatMap.1 hbox
  have hbelow : height p.box.value.node < height row := height_child (List.mem_of_mem_filter hcell)
  obtain ⟨child, hchild, hrow⟩ := List.mem_flatMap.1 hrow
  have htop : height child < height node := height_child hchild
  have hle : height row ≤ height child := by
    split at hrow
    · rw [List.mem_singleton.1 hrow]
    · split at hrow
      · exact Nat.le_of_lt (height_child (List.mem_of_mem_filter hrow))
      · simp at hrow
  exact Nat.lt_trans hbelow (Nat.lt_of_le_of_lt hle htop)

theorem mem_flushItem {pending : List MarkupNode} {item : MarkupNode}
    (h : item ∈ flushItem pending) :
    item = .element kWrapperTag [] pending := by
  unfold flushItem at h
  split at h
  · simp at h
  · exact List.mem_singleton.1 h

/-- An item of a list: one of the children, or some of them in a wrapper. -/
def IsItem (children : List MarkupNode) (item : MarkupNode) : Prop :=
  item ∈ children ∨ ∃ pending, (∀ child ∈ pending, child ∈ children) ∧
    item = .element kWrapperTag [] pending

theorem gatherItem_items {children : List MarkupNode} {s : List MarkupNode × List MarkupNode}
    {child : MarkupNode} (hchild : child ∈ children) (hitems : ∀ item ∈ s.1, IsItem children item)
    (hpending : ∀ c ∈ s.2, c ∈ children) :
    (∀ item ∈ (gatherItem s child).1, IsItem children item) ∧
      ∀ c ∈ (gatherItem s child).2, c ∈ children := by
  unfold gatherItem
  split
  · refine ⟨fun item hitem => ?_, by simp⟩
    rcases List.mem_append.1 hitem with hitem | hitem
    · rcases List.mem_append.1 hitem with hitem | hitem
      · exact hitems item hitem
      · exact Or.inr ⟨s.2, hpending, mem_flushItem hitem⟩
    · split at hitem
      · simp at hitem
      · exact Or.inl (List.mem_singleton.1 hitem ▸ hchild)
  · refine ⟨hitems, fun c hc => ?_⟩
    rcases List.mem_append.1 hc with hc | hc
    · exact hpending c hc
    · exact List.mem_singleton.1 hc ▸ hchild

theorem listItems_items {node item : MarkupNode} (h : item ∈ listItems node) :
    IsItem node.children item := by
  have hgather : ∀ (l : List MarkupNode) (s : List MarkupNode × List MarkupNode),
      (∀ child ∈ l, child ∈ node.children) → (∀ item ∈ s.1, IsItem node.children item) →
      (∀ c ∈ s.2, c ∈ node.children) →
      (∀ item ∈ (l.foldl gatherItem s).1, IsItem node.children item) ∧
        ∀ c ∈ (l.foldl gatherItem s).2, c ∈ node.children := by
    intro l
    induction l with
    | nil => exact fun s _ hitems hpending => ⟨hitems, hpending⟩
    | cons child l ih =>
      intro s hl hitems hpending
      obtain ⟨hitems', hpending'⟩ := gatherItem_items (hl child List.mem_cons_self) hitems hpending
      exact ih _ (fun c hc => hl c (List.mem_cons_of_mem _ hc)) hitems' hpending'
  unfold listItems at h
  split at h
  · exact Or.inl h
  · obtain ⟨hitems, hpending⟩ := hgather node.children ([], []) (fun _ h => h) (by simp) (by simp)
    dsimp only at h
    split at h
    · exact hitems item h
    · rcases List.mem_append.1 h with h | h
      · exact hitems item h
      · exact Or.inr ⟨_, hpending, mem_flushItem h⟩

/-- The content of a list's items stands below the list. -/
theorem height_item {node item content : MarkupNode} (hitem : item ∈ listItems node)
    (hcontent : content ∈ itemContent item) : height content < height node := by
  unfold itemContent at hcontent
  rcases listItems_items hitem with hchild | ⟨pending, hpending, rfl⟩
  · have hlt := height_child hchild
    split at hcontent
    · exact Nat.lt_trans (height_child hcontent) hlt
    · rw [List.mem_singleton.1 hcontent]
      exact hlt
  · rw [if_pos (by simp [MarkupNode.isText, MarkupNode.tag])] at hcontent
    exact height_child (hpending content hcontent)

/-- A list in a list stands below it. -/
theorem height_inner {node item : MarkupNode} (hitem : item ∈ listItems node)
    (htag : (item.tag == ascii "ul" || item.tag == ascii "ol") = true) :
    height item < height node := by
  rcases listItems_items hitem with hchild | ⟨pending, -, rfl⟩
  · exact height_child hchild
  · have hwrapper : ¬ (kWrapperTag == ascii "ul" || kWrapperTag == ascii "ol") = true := by decide
    exact absurd htag hwrapper

/-! ## The whole walk -/

section Whole
variable (env : Env)

/-- Fuel `3 * h + 2` is enough for a walk over trees of `h` levels. -/
structure Enough (n : Nat) : Prop where
  walk : ∀ children parent prov label, 3 * heightIn children + 2 ≤ n →
    Sound (walk env n children parent prov label)
  block : ∀ node parent prov label, 3 * height node + 1 ≤ n →
    Sound (block env n node parent prov label)
  list : ∀ node parent, 3 * height node ≤ n → Sound (list env n node parent)
  table : ∀ node parent prov, 3 * height node ≤ n → Sound (table env n node parent prov)
  picture : ∀ node parent prov, 3 * height node ≤ n → Sound (picture env n node parent prov)

variable {env} {n : Nat}

theorem Enough.walk_succ (h : Enough env n) (children : List MarkupNode) (parent : Option BodyChild)
    (prov : Option Provenance) (label : DocItemLabel) (hn : 3 * heightIn children + 1 ≤ n) :
    Sound (Chandra.walk env (n + 1) children parent prov label) := by
  rw [Chandra.walk]
  refine (sound_foldlM _ (fun left node hnode => ?_) _).bind fun left => sound_emitRuns env _ _ _ _
  have hheight := height_le_heightIn hnode
  refine sound_point.bind fun _ => sound_state.bind fun s => ?_
  split
  · exact sound_pure _
  · split
    · exact sound_pure _
    · refine (sound_emitRuns env _ _ _ _).bind fun prov => ?_
      exact (h.block node parent prov label (by omega)).bind fun prov => sound_pure _

theorem Enough.block_succ (h : Enough env n) (node : MarkupNode) (parent : Option BodyChild)
    (prov : Option Provenance)
    (label : DocItemLabel) (hn : 3 * height node ≤ n) :
    Sound (Chandra.block env (n + 1) node parent prov label) := by
  have hchildren := height_children node
  rw [Chandra.block]
  refine sound_point.bind fun _ => Sound.map ?_ _
  refine .ite (h.picture node parent _ hn)
    (.ite (h.table node parent _ hn) (.ite ?_ (.ite ?_ (.ite ?_
    (.ite ?_ (.ite ?_ (.ite ?_ (.ite (sound_pure _) ?_))))))))
  · exact (h.list node parent hn).bind fun _ => sound_pure _
  · exact Sound.bind (sound_op env trivial) fun _ => sound_pure _
  · exact Sound.bind (sound_op env trivial) fun _ => sound_pure _
  · exact sound_state.bind fun s => sound_emitRuns env _ _ _ _
  · refine Sound.bind (sound_op env trivial) fun region => ?_
    exact (h.walk _ _ _ _ (by omega)).bind fun _ => sound_pure _
  · refine sound_state.bind fun s => (h.walk _ _ _ _ (by omega)).bind fun prov => ?_
    exact (sound_linkCaptions env _ _ _).bind fun _ => sound_pure _
  · refine sound_state.bind fun s => (h.walk _ _ _ _ (by omega)).bind fun prov => ?_
    exact (sound_setTagLevel env _ _).bind fun _ => sound_pure _

theorem Enough.list_succ (h : Enough env n) (node : MarkupNode) (parent : Option BodyChild)
    (hn : 3 * height node ≤ n + 1) :
    Sound (Chandra.list env (n + 1) node parent) := by
  rw [Chandra.list]
  refine Sound.bind (sound_op env trivial) fun group => ?_
  refine (sound_foldlM _ (fun number item hitem => ?_) _).bind fun _ => sound_pure _
  split
  · exact sound_pure _
  · split
    · rename_i hlist
      have := height_inner hitem (Bool.and_eq_true_iff.1 hlist).2
      exact (h.list item group (by omega)).bind fun _ => sound_pure _
    · refine Sound.bind (sound_op env trivial) fun made => ?_
      have hle : heightIn (itemContent item) ≤ height node - 1 :=
        heightIn_le fun content hc => Nat.le_sub_one_of_lt (height_item hitem hc)
      have hpos := height_children node
      exact (h.walk _ _ _ _ (by omega)).bind fun _ => sound_pure _

theorem Enough.table_succ (h : Enough env n) (node : MarkupNode) (parent : Option BodyChild)
    (prov : Option Provenance)
    (hn : 3 * height node ≤ n + 1) : Sound (Chandra.table env (n + 1) node parent prov) := by
  have hchildren := height_children node
  rw [Chandra.table]
  split
  · exact h.walk _ _ _ _ (by omega)
  · refine Sound.bind (sound_op env trivial) fun made => ?_
    refine (sound_foldlM _ (fun refs source hsource => ?_) _).bind fun richRefs => ?_
    · have hbelow := height_source hsource
      have hcell := height_children source.2
      split
      · exact sound_pure _
      · refine Sound.bind (sound_op env trivial) fun group => ?_
        refine (h.walk _ _ _ _ (by omega)).bind fun _ => ?_
        exact sound_state.bind fun s => sound_pure _
    · refine (sound_edit ?_).bind fun _ => ?_
      · intro out
        unfold fillTable
        split
        · rfl
        · rfl
      · refine (sound_foldlM _ (fun _ child hchild => ?_) _).bind fun _ => sound_pure _
        have := height_child (List.mem_of_mem_filter hchild)
        exact (h.block child made none .caption (by omega)).bind fun _ => sound_pure _

theorem describePicture_texts (picture : Option BodyChild) (description : Bytes)
    (out : ChandraWriter) :
    (describePicture picture description out).writer.doc.texts = out.writer.doc.texts := by
  unfold describePicture
  split
  · rfl
  · split
    · rfl
    · rfl

theorem setMolecule_writer (picture : Option BodyChild) (chemicals : List MarkupNode)
    (out : ChandraWriter) :
    (setMolecule picture chemicals out).writer = out.writer := by
  unfold setMolecule
  split
  · dsimp only
    split
    · rfl
    · rfl
  · rfl

theorem Enough.picture_succ (h : Enough env n) (node : MarkupNode) (parent : Option BodyChild)
    (prov : Option Provenance)
    (hn : 3 * height node ≤ n + 1) : Sound (Chandra.picture env (n + 1) node parent prov) := by
  have hchildren := height_children node
  have hcontent : heightIn (pictureContent node) ≤ heightIn node.children :=
    heightIn_le fun child hchild => height_le_heightIn (List.mem_of_mem_filter hchild)
  rw [Chandra.picture]
  refine Sound.bind (sound_op env trivial) fun made => ?_
  refine (sound_edit (describePicture_texts made _)).bind fun _ => ?_
  refine (sound_edit fun out => by rw [setMolecule_writer]).bind fun _ => ?_
  split
  · exact sound_pure _
  · exact sound_inPicture (h.walk _ _ _ _ (by omega)) _ _

end Whole

/-- **The walk keeps the flags and the levels**, whatever it walks, and needs no
more fuel than the tree is high. -/
theorem enough (env : Env) (n : Nat) : Enough env n := by
  induction n with
  | zero =>
    have hpos : ∀ node, 1 ≤ height node := fun node => by
      have := height_children node
      omega
    refine ⟨fun children _ _ _ hn => ?_, fun node _ _ _ hn => ?_, fun node _ hn => ?_,
      fun node _ _ hn => ?_, fun node _ _ hn => ?_⟩
    · omega
    · omega
    · have := hpos node
      omega
    · have := hpos node
      omega
    · have := hpos node
      omega
  | succ n ih =>
    exact ⟨fun children parent prov label hn => ih.walk_succ children parent prov label (by omega),
      fun node parent prov label hn => ih.block_succ node parent prov label (by omega),
      fun node parent hn => ih.list_succ node parent hn,
      fun node parent prov hn => ih.table_succ node parent prov hn,
      fun node parent prov hn => ih.picture_succ node parent prov hn⟩

end VlmConvert.L3.Chandra

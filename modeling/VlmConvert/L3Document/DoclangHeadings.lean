import VlmConvert.L3Document.DoclangBlocks
import VlmConvert.L3Document.DoclangText

/-!
# DocLang headings

`heading` (`src/mapping/doclang.cpp:480-490`) makes a title of level 1 and a
section header one below any other level: the level it reads from the
attribute may be any `int`. No other part of the DocLang builder makes a
section header.

`nodeHeadings` lists the `<heading>`s that `dispatch` writes, by the branches
it takes; `writtenHeadings` those of a response.

Result: `mapDoclang_headerLevels`, the levels of a document are those of the
headings written, and `mapDoclang_leveled_iff`, when they are valid.
-/
namespace VlmConvert.L3.Doclang

open Bytes L1 L2

/-! ## The headings that are written -/

/-- The level of a `<heading>`; one that is missing or no `int` is 1. -/
def headingLevel (el : MarkupNode) : Int := (parseInt (el.attr (ascii "level") (ascii "1"))).getD 1

/-- The level of its section header, unless it is a title. -/
def sectionLevel (el : MarkupNode) : Option Int :=
  if headingLevel el = 1 then none else some (headingLevel el - 1)

section Headings
variable (below : MarkupNode → List MarkupNode)

mutual
/-- Several runs. -/
def runHeadings (skip : Bool) : List MarkupNode → List MarkupNode
  | [] => []
  | .text t :: rest => runHeadings (skip && (trim t).isEmpty) rest
  | .element tag attrs children :: rest =>
    if skip && kHeadTags.contains tag then runHeadings skip rest
    else if kFormatTags.contains tag then runHeadings false children ++ runHeadings false rest
    else nodeHeadings (.element tag attrs children) ++ runHeadings false rest
/-- An element that is dispatched; `below` tells those of lists, groups, tables
and pictures. -/
def nodeHeadings : MarkupNode → List MarkupNode
  | .text _ => []
  | .element tag attrs children =>
    let el := MarkupNode.element tag attrs children
    if tag == ascii "track" || tag == ascii "page_break" then []
    else if kTextLike.contains tag then
      if splits el then runHeadings (hosts tag children) children
      else if tag == ascii "code" then
        if (textWithFormatting ({}, false) el).1.isEmpty &&
          !((simpleText el).isNone && emptyBlock children)
        then [] else captionHeadings children
      else []
    else if tag == ascii "heading" then if (trim (getText el)).isEmpty then [] else [el]
    else if [ascii "list", ascii "group", ascii "table", ascii "index",
      ascii "picture"].contains tag then
      below el
    else walkHeadings children
/-- The children of an element that is walked. -/
def walkHeadings : List MarkupNode → List MarkupNode
  | [] => []
  | .text _ :: rest => walkHeadings rest
  | .element tag attrs children :: rest =>
    if kSkip.contains tag then walkHeadings rest
    else nodeHeadings (.element tag attrs children) ++ walkHeadings rest
/-- Captions of several runs. -/
def captionHeadings : List MarkupNode → List MarkupNode
  | [] => []
  | .text _ :: rest => captionHeadings rest
  | .element tag attrs children :: rest =>
    let el := MarkupNode.element tag attrs children
    if tag != ascii "caption" || (trim (getText el)).isEmpty then captionHeadings rest
    else if (simpleText el).isNone then runHeadings true children ++ captionHeadings rest
    else captionHeadings rest
end

def itemHeadings (nodes : List MarkupNode) : List MarkupNode :=
  match itemShape nodes with
  | .empty | .text _ => []
  | .nested _ elements | .blocks elements => elements.flatMap (nodeHeadings below)
  | .runs content => runHeadings below false content

/-- A caption with text. -/
def hasCaption (children : List MarkupNode) : Bool :=
  children.any fun child => !child.isText && child.tag == ascii "caption" &&
    !(trim (getText child)).isEmpty

/-- The captions of a float group, and those of its host when it has none. -/
def floatHeadings (children : List MarkupNode) (host : Option MarkupNode) : List MarkupNode :=
  captionHeadings below children ++ match host with
    | some host => if hasCaption children then [] else captionHeadings below host.children
    | none => []

def tableHeadings (el : MarkupNode) : List MarkupNode :=
  if isTable el.tag then captionHeadings below el.children
  else floatHeadings below el.children
    ((firstChild (ascii "table") el.children).or (firstChild (ascii "index") el.children))

def pictureHeadings (el : MarkupNode) : List MarkupNode :=
  let isPicture := el.tag == ascii "picture"
  let host := if isPicture then some el else firstChild (ascii "picture") el.children
  (if isPicture then captionHeadings below el.children else floatHeadings below el.children host) ++
    match host with
    | some host => (pictureElements host.children).flatMap (nodeHeadings below)
    | none => []

def groupHeadings (el : MarkupNode) : List MarkupNode :=
  if !(el.attr (ascii "name") []).isEmpty then walkHeadings below el.children
  else
    match floatHost el.children with
    | some host =>
      if host.tag == ascii "picture" then pictureHeadings below el
      else if host.tag == ascii "code" then nodeHeadings below host
      else tableHeadings below el
    | none => walkHeadings below el.children

/-- A list, group, table or picture. -/
def blockHeadings (el : MarkupNode) : List MarkupNode :=
  if el.tag == ascii "list" then
    (listSegments el.children).flatMap fun segment => itemHeadings below segment.2
  else if el.tag == ascii "group" then groupHeadings below el
  else if isTable el.tag then tableHeadings below el
  else pictureHeadings below el

end Headings

/-- In a tree no higher than `n`. -/
def headingsIn : Nat → MarkupNode → List MarkupNode
  | 0, _ => []
  | n + 1, el => blockHeadings (headingsIn n) el

/-- The headings a response is mapped with, in order. -/
def writtenHeadings (text : Bytes) : List MarkupNode :=
  match doclangRoot text with
  | none => []
  | some root => (root.children.filter fun child => !child.isText).flatMap
      (nodeHeadings (headingsIn (height root)))

/-! ## The levels of the builder -/

def Builder.levels (b : Builder) : List Int := b.writer.doc.headerLevels

section Writer
variable (page : PageContext) (res : Resolution)

@[simp] theorem levels_applyLayer (w : LayoutWriter) (ref : BodyChild)
    (children : List MarkupNode) :
    (applyLayer w ref children).doc.headerLevels = w.doc.headerLevels := by
  unfold applyLayer
  split
  · exact LayoutWriter.headerLevels_setContentLayer ref _
  · rfl

theorem levels_layers (kind : BodyChild.Kind) (layer : ContentLayer) (indices : List Nat) :
    ∀ w : LayoutWriter,
      (indices.foldl (fun w i => w.setContentLayer ⟨kind, i⟩ layer) w).doc.headerLevels =
      w.doc.headerLevels := by
  induction indices with
  | nil => exact fun _ => rfl
  | cons i indices ih => exact fun w => (ih _).trans (LayoutWriter.headerLevels_setContentLayer _ _)

@[simp] theorem levels_layerSubtree (textsBefore groupsBefore : Nat) (children : List MarkupNode)
    (b : Builder) : (layerSubtree textsBefore groupsBefore children b).levels = b.levels := by
  unfold layerSubtree
  split
  · rfl
  · simp only [Builder.levels, levels_layers]

@[simp] theorem levels_attach (w : LayoutWriter) (owner : BodyChild)
    (captions footnotes : List BodyChild) :
    (attach w owner captions footnotes).doc.headerLevels = w.doc.headerLevels := by
  have hcaptions : ∀ (captions : List BodyChild) (w : LayoutWriter),
      (captions.foldl (fun w caption => w.linkCaption owner caption) w).doc.headerLevels =
        w.doc.headerLevels := by
    intro captions
    induction captions with
    | nil => exact fun _ => rfl
    | cons caption captions ih =>
        exact fun w => (ih _).trans (LayoutWriter.headerLevels_linkCaption _ _)
  have hfootnotes : ∀ (footnotes : List BodyChild) (w : LayoutWriter),
      (footnotes.foldl (fun w footnote => w.linkFootnote owner footnote) w).doc.headerLevels =
        w.doc.headerLevels := by
    intro footnotes
    induction footnotes with
    | nil => exact fun _ => rfl
    | cons footnote footnotes ih =>
        exact fun w => (ih _).trans (LayoutWriter.headerLevels_linkFootnote _ _)
  exact (hfootnotes footnotes _).trans (hcaptions captions w)

/-- A run of another label makes no header. -/
theorem levels_styledText {label : DocItemLabel} (hlabel : label ≠ .sectionHeader)
    (w : LayoutWriter)
    (box : Option BoundingBox) (body : Bytes) (parent : Option BodyChild) (formatting : Option Wire)
    (hyperlink : Bytes) :
    (w.styledText page box body parent label formatting hyperlink).1.doc.headerLevels =
      w.doc.headerLevels := by
  rw [LayoutWriter.headerLevels_styledText, if_neg hlabel, List.append_nil]

theorem textLabel_ne {tag : Bytes} {label : DocItemLabel} (h : textLabel tag = some label) :
    label ≠ .sectionHeader := by
  unfold textLabel at h
  obtain ⟨front, rest, hlist, -⟩ := List.lookup_eq_some_iff.1 h
  have hmem : (tag, label) ∈ front ++ (tag, label) :: rest := by simp
  rw [← hlist] at hmem
  rintro rfl
  simp at hmem

theorem runLabel_ne {label : DocItemLabel} (h : label ≠ .sectionHeader)
    (children : List MarkupNode) :
    runLabel label children ≠ .sectionHeader := by
  unfold runLabel
  dsimp only
  cases hfound : List.findSome? _ _ with
  | none => exact h
  | some run =>
    obtain ⟨child, -, hchild⟩ := List.exists_of_findSome?_eq_some hfound
    rw [Option.getD_some]
    rintro rfl
    split_ifs at hchild <;> cases hchild

theorem levels_singleRun (parent : Option BodyChild) (b : Builder) (el : MarkupNode) :
    (singleRun page res parent b el).levels = b.levels := by
  unfold singleRun Builder.levels
  dsimp only
  split
  · rfl
  · split
    · rw [levels_applyLayer]
      exact (headerLevels_addTexts _).trans (List.append_nil _)
    · split
      · rfl
      · rename_i label hlabel
        rw [levels_applyLayer]
        refine levels_styledText page ?_ _ _ _ _ _ _
        split
        · exact runLabel_ne (textLabel_ne hlabel) _
        · exact textLabel_ne hlabel

/-- A heading is a title, or a section header one level below its own. -/
theorem levels_heading (parent : Option BodyChild) (b : Builder) (el : MarkupNode) :
    (heading page res parent b el).levels = b.levels ++
      (if (trim (getText el)).isEmpty then [] else [el]).filterMap sectionLevel := by
  unfold heading Builder.levels
  dsimp only
  split
  · exact (List.append_nil _).symm
  · rw [levels_applyLayer, List.filterMap_cons, List.filterMap_nil, sectionLevel, headingLevel]
    split
    · rename_i hone
      rw [if_pos (beq_iff_eq.1 hone)]
      exact headerLevels_addTexts _
    · rename_i hother
      rw [if_neg (by simpa using hother)]
      exact headerLevels_addTexts _

theorem levels_openHost {label : DocItemLabel} (hlabel : label ≠ .sectionHeader)
    (children : List MarkupNode) (parent : Option BodyChild) (b : Builder) :
    (openHost page res children label parent b).1.levels = b.levels :=
  levels_styledText page hlabel b.writer _ _ _ _ _

/-- A text element, given the headings of its runs and captions. -/
theorem levels_textLikeWith (tag : Bytes) (attrs : List (Bytes × Bytes))
    (children : List MarkupNode)
    (runs : Bool → BodyChild → Option Formatting → Builder → Builder)
    (captions : Builder → Builder × List BodyChild) (parent : Option BodyChild) (b : Builder)
    (inRuns : Bool → List MarkupNode) (inCaptions : List MarkupNode)
    (hruns : ∀ skip parent formatting b,
      (runs skip parent formatting b).levels = b.levels ++ (inRuns skip).filterMap sectionLevel)
    (hcaptions : ∀ b, (captions b).1.levels = b.levels ++ inCaptions.filterMap sectionLevel) :
    (textLikeWith page res runs captions parent b tag attrs children).levels = b.levels ++
      (if splits (.element tag attrs children) then inRuns (hosts tag children)
        else if tag == ascii "code" then
          if (textWithFormatting ({}, false) (.element tag attrs children)).1.isEmpty &&
            !((simpleText (.element tag attrs children)).isNone && emptyBlock children)
          then [] else inCaptions
        else []).filterMap sectionLevel := by
  unfold textLikeWith
  dsimp only
  by_cases hsplits : splits (.element tag attrs children) = true
  · rw [if_pos hsplits, if_pos hsplits, isHost_eq]
    cases hhost : hosts tag children with
    | true =>
      have hlabel : (textLabel tag).getD .text ≠ .sectionHeader := by
        cases htag : textLabel tag with
        | none => decide
        | some label => exact textLabel_ne htag
      rw [if_pos rfl, levels_layerSubtree, hruns, levels_openHost page res hlabel]
    | false =>
      rw [if_neg Bool.false_ne_true, levels_layerSubtree, hruns]
      rfl
  · rw [if_neg hsplits, if_neg hsplits]
    split
    · split
      · exact (List.append_nil _).symm
      · have hcode : ∀ item : LayoutWriter × BodyChild, item.1.doc.headerLevels = b.levels →
            ((captions { b with writer := applyLayer item.1 item.2 children }).1).levels =
              b.levels ++ inCaptions.filterMap sectionLevel := by
          intro item hitem
          rw [hcaptions, Builder.levels, levels_applyLayer, hitem]
        refine (levels_attach _ _ _ []).trans (hcode (b.writer.code page (headBox page res children)
          (codeText children) parent (headLabel children)) ?_)
        exact (headerLevels_addTexts _).trans (List.append_nil _)
    · rw [List.filterMap_nil, List.append_nil]
      exact levels_singleRun page res parent b _

end Writer

/-! ## The levels of a walk -/

section Walk
variable (page : PageContext) (res : Resolution)
  {handlers : MarkupNode → Option BodyChild → Builder → Builder}
  {below : MarkupNode → List MarkupNode}

/-- The handlers make the headers of the headings listed. -/
def Lists (handlers : MarkupNode → Option BodyChild → Builder → Builder)
    (below : MarkupNode → List MarkupNode) : Prop :=
  ∀ el parent b, (handlers el parent b).levels = b.levels ++ (below el).filterMap sectionLevel

mutual
theorem levels_inlineRuns (hbelow : Lists handlers below) : ∀ (skip : Bool) (parent : BodyChild)
    (formatting : Option Formatting) (b : Builder) (nodes : List MarkupNode),
    (inlineRuns page res handlers skip parent formatting b nodes).levels =
      b.levels ++ (runHeadings below skip nodes).filterMap sectionLevel
  | _, _, _, _, [] => (List.append_nil _).symm
  | skip, parent, formatting, b, .text t :: rest => by
    rw [inlineRuns, runHeadings]
    cases hempty : (trim t).isEmpty with
    | true =>
      rw [if_pos rfl, Bool.and_true]
      exact levels_inlineRuns hbelow skip parent formatting b rest
    | false =>
      rw [if_neg Bool.false_ne_true, Bool.and_false]
      dsimp only
      rw [levels_inlineRuns hbelow false parent formatting _ rest]
      congr 1
      exact @levels_styledText page .text (by decide) b.writer _ _ _ _ _
  | skip, parent, formatting, b, .element tag attrs children :: rest => by
    rw [inlineRuns, runHeadings]
    by_cases hskip : (skip && kHeadTags.contains tag) = true
    · rw [if_pos hskip, if_pos hskip]
      exact levels_inlineRuns hbelow skip parent formatting b rest
    · rw [if_neg hskip, if_neg hskip]
      by_cases hformat : kFormatTags.contains tag = true
      · rw [if_pos hformat, if_pos hformat, levels_inlineRuns hbelow false parent formatting _ rest,
          levels_inlineRuns hbelow false parent _ b children, List.filterMap_append,
            List.append_assoc]
      · rw [if_neg hformat, if_neg hformat, levels_inlineRuns hbelow false parent formatting _ rest,
          levels_dispatch hbelow (some parent) b (.element tag attrs children),
            List.filterMap_append,
          List.append_assoc]
theorem levels_dispatch (hbelow : Lists handlers below) :
    ∀ (parent : Option BodyChild) (b : Builder)
    (node : MarkupNode), (dispatch page res handlers parent b node).levels =
      b.levels ++ (nodeHeadings below node).filterMap sectionLevel
  | _, _, .text _ => (List.append_nil _).symm
  | parent, b, .element tag attrs children => by
    rw [dispatch, nodeHeadings]
    split
    · exact (List.append_nil _).symm
    · split
      · exact levels_textLikeWith page res tag attrs children _ _ parent b
          (fun skip => runHeadings below skip children) (captionHeadings below children)
          (fun skip parent formatting b =>
            levels_inlineRuns hbelow skip parent formatting b children)
          (fun b => levels_captionsOf hbelow b children)
      · split
        · exact levels_heading page res parent b _
        · split
          · exact hbelow _ parent b
          · exact levels_walkChildren hbelow parent b children
theorem levels_walkChildren (hbelow : Lists handlers below) :
    ∀ (parent : Option BodyChild) (b : Builder)
    (nodes : List MarkupNode), (walkChildren page res handlers parent b nodes).levels =
      b.levels ++ (walkHeadings below nodes).filterMap sectionLevel
  | _, _, [] => (List.append_nil _).symm
  | parent, b, .text t :: rest => by
    rw [walkChildren, walkHeadings]
    exact levels_walkChildren hbelow parent b rest
  | parent, b, .element tag attrs children :: rest => by
    rw [walkChildren, walkHeadings]
    split
    · exact levels_walkChildren hbelow parent b rest
    · rw [levels_walkChildren hbelow parent _ rest,
        levels_dispatch hbelow parent b (.element tag attrs children), List.filterMap_append,
        List.append_assoc]
theorem levels_captionsOf (hbelow : Lists handlers below) :
    ∀ (b : Builder) (nodes : List MarkupNode), (captionsOf page res handlers b nodes).1.levels =
      b.levels ++ (captionHeadings below nodes).filterMap sectionLevel
  | _, [] => (List.append_nil _).symm
  | b, .text t :: rest => by
    rw [captionsOf, captionHeadings]
    exact levels_captionsOf hbelow b rest
  | b, .element tag attrs children :: rest => by
    rw [captionsOf, captionHeadings]
    dsimp only
    split
    · exact levels_captionsOf hbelow b rest
    · split
      · rw [levels_captionsOf hbelow _ rest, levels_layerSubtree,
          levels_inlineRuns hbelow true _ none _ children,
            @levels_openHost page res .caption (by decide),
          List.filterMap_append, List.append_assoc]
      · rw [levels_captionsOf hbelow _ rest]
        congr 1
        rw [Builder.levels, levels_applyLayer]
        exact @levels_styledText page .caption (by decide) b.writer _ _ _ _ _
end

end Walk

/-! ## The levels of the handlers -/

section Blocks
variable (env : Env) {handlers : MarkupNode → Option BodyChild → Builder → Builder}
  {below : MarkupNode → List MarkupNode}

theorem levels_dispatchAll (hbelow : Lists handlers below) (parent : Option BodyChild)
    (nodes : List MarkupNode) : ∀ b : Builder, (dispatchAll env handlers parent b nodes).levels =
      b.levels ++ (nodes.flatMap (nodeHeadings below)).filterMap sectionLevel := by
  unfold dispatchAll
  induction nodes with
  | nil => exact fun _ => (List.append_nil _).symm
  | cons node nodes ih =>
    intro b
    rw [List.foldl_cons, ih, levels_dispatch env.page env.res hbelow, List.flatMap_cons,
      List.filterMap_append, List.append_assoc]

theorem levels_listItem (hbelow : Lists handlers below) (ordered : Bool) (group : BodyChild)
    (b : Builder)
    (ldiv : MarkupNode) (nodes : List MarkupNode) :
    (listItem env handlers ordered group b ldiv nodes).levels =
      b.levels ++ (itemHeadings below nodes).filterMap sectionLevel := by
  have hitem : ∀ box text, (LayoutWriter.listItem env.page b.writer box text (some group) ordered
      (listMarker ldiv)).1.doc.headerLevels = b.levels :=
    fun _ _ => (headerLevels_addTexts _).trans (List.append_nil _)
  unfold listItem itemHeadings
  dsimp only
  cases itemShape nodes with
  | empty => exact (hitem _ _).trans (List.append_nil _).symm
  | text el => exact (hitem _ _).trans (List.append_nil _).symm
  | nested leading elements =>
    dsimp only
    rw [levels_dispatchAll env hbelow, Builder.levels, hitem]
  | blocks elements =>
    dsimp only
    rw [levels_dispatchAll env hbelow, Builder.levels, hitem]
  | runs content =>
    dsimp only
    rw [levels_inlineRuns env.page env.res hbelow]
    congr 1
    exact hitem _ _

theorem levels_list (hbelow : Lists handlers below) (parent : Option BodyChild) (b : Builder)
    (el : MarkupNode) : (list env handlers parent b el).levels = b.levels ++
      ((listSegments el.children).flatMap fun segment => itemHeadings below segment.2).filterMap
        sectionLevel := by
  have hsegments :
    ∀ (segments : List (MarkupNode × List MarkupNode)) (group : BodyChild) (b : Builder),
      (segments.foldl
        (fun b segment => listItem env handlers (el.attr (ascii "class") [] == ascii "ordered")
        group b segment.1 segment.2) b).levels =
      b.levels ++ (segments.flatMap fun segment =>
        itemHeadings below segment.2).filterMap sectionLevel := by
    intro segments group
    induction segments with
    | nil => exact fun _ => (List.append_nil _).symm
    | cons segment segments ih =>
      intro b
      rw [List.foldl_cons, ih, levels_listItem env hbelow, List.flatMap_cons, List.filterMap_append,
        List.append_assoc]
  exact hsegments _ _ _

theorem levels_satellites (children : List MarkupNode) : ∀ b : Builder,
    (satellites env b children).1.levels = b.levels := by
  induction children with
  | nil => exact fun _ => rfl
  | cons child rest ih =>
    intro b
    rw [satellites]
    dsimp only
    split
    · exact ih b
    · split
      · exact (ih _).trans (@levels_styledText env.page .caption (by decide) b.writer _ _ _ _ _)
      · exact (ih _).trans (@levels_styledText env.page .footnote (by decide) b.writer _ _ _ _ _)

/-- A group has captions of its own exactly when it holds one with text. -/
theorem captionsOf_isEmpty (page : PageContext) (res : Resolution) (children : List MarkupNode) :
    ∀ b : Builder, (captionsOf page res handlers b children).2.isEmpty = !hasCaption children := by
  induction children with
  | nil => exact fun _ => by simp [captionsOf, hasCaption]
  | cons child rest ih =>
    intro b
    have hrest : hasCaption (child :: rest) = (!child.isText && child.tag == ascii "caption" &&
        !(trim (getText child)).isEmpty || hasCaption rest) := by
      rw [hasCaption, List.any_cons, ← hasCaption]
    cases child with
    | text t =>
      rw [captionsOf, ih, hrest]
      rfl
    | element tag attrs children =>
      rw [captionsOf, hrest]
      dsimp only [MarkupNode.isText, MarkupNode.tag]
      split
      · rename_i hskip
        rw [ih]
        simp only [bne, Bool.or_eq_true, Bool.not_eq_true'] at hskip
        rcases hskip with hskip | hskip <;> simp [hskip]
      · rename_i hcaption
        simp only [bne, Bool.or_eq_true, Bool.not_eq_true', not_or, Bool.not_eq_false,
          Bool.not_eq_true] at hcaption
        rw [hcaption.1, hcaption.2]
        split
        · rfl
        · rfl

theorem levels_floatCaptions (hbelow : Lists handlers below) (b : Builder)
    (children : List MarkupNode)
    (host : Option MarkupNode) : (floatCaptions env handlers b children host).1.levels =
      b.levels ++ (floatHeadings below children host).filterMap sectionLevel := by
  have hown : (captionsOf env.page env.res handlers
    (satellites env b children).1 children).1.levels =
      b.levels ++ (captionHeadings below children).filterMap sectionLevel := by
    rw [levels_captionsOf env.page env.res hbelow, levels_satellites]
  unfold floatCaptions floatHeadings
  dsimp only
  cases host with
  | none => rw [hown, List.append_nil]
  | some host =>
    dsimp only
    rw [captionsOf_isEmpty, List.filterMap_append, ← List.append_assoc, ← hown]
    cases hasCaption children with
    | true => exact (List.append_nil _).symm
    | false => exact levels_captionsOf env.page env.res hbelow _ host.children

theorem levels_tableItem (parent : Option BodyChild) (b : Builder) (otsl : MarkupNode)
    (captions footnotes : List BodyChild) :
    (tableItem env parent b otsl captions footnotes).levels = b.levels := by
  unfold tableItem Builder.levels
  dsimp only
  rw [levels_attach, levels_applyLayer]
  split
  · exact LayoutWriter.headerLevels_table env.page env.byteSizeLong _ _ _
  · exact LayoutWriter.headerLevels_table env.page env.byteSizeLong _ _ _

theorem levels_table (hbelow : Lists handlers below) (parent : Option BodyChild) (b : Builder)
    (el : MarkupNode) : (table env handlers parent b el).levels =
      b.levels ++ (tableHeadings below el).filterMap sectionLevel := by
  unfold table tableHeadings
  dsimp only
  split
  · rw [levels_tableItem, levels_captionsOf env.page env.res hbelow]
  · rw [← levels_floatCaptions env hbelow]
    split
    · exact levels_tableItem env parent _ _ _ _
    · rw [Builder.levels, levels_attach]
      exact LayoutWriter.headerLevels_table env.page env.byteSizeLong _ _ _

theorem levels_charts (picture : BodyChild) (nodes : List MarkupNode) : ∀ w : LayoutWriter,
    (nodes.foldl (addChart picture) w).doc.headerLevels = w.doc.headerLevels := by
  induction nodes with
  | nil => exact fun _ => rfl
  | cons node nodes ih =>
    intro w
    refine (ih _).trans ?_
    unfold addChart
    split
    · exact congrArg (List.filterMap _) (LayoutWriter.setTabularChart_texts w picture _ _ _)
    · rfl

theorem levels_picture (hbelow : Lists handlers below) (parent : Option BodyChild) (b : Builder)
    (el : MarkupNode) : (picture env handlers parent b el).levels =
      b.levels ++ (pictureHeadings below el).filterMap sectionLevel := by
  have hcaptions : (if (el.tag == ascii "picture") = true then
        ((captionsOf env.page env.res handlers b el.children).1,
          (captionsOf env.page env.res handlers b el.children).2, [])
      else floatCaptions env handlers b el.children
        (if (el.tag == ascii "picture") = true then some el
          else firstChild (ascii "picture") el.children)).1.levels =
      b.levels ++ (if (el.tag == ascii "picture") = true then captionHeadings below el.children
        else floatHeadings below el.children (if (el.tag == ascii "picture") = true then some el
          else firstChild (ascii "picture") el.children)).filterMap sectionLevel := by
    split
    · exact levels_captionsOf env.page env.res hbelow b el.children
    · exact levels_floatCaptions env hbelow b el.children _
  unfold picture pictureHeadings
  dsimp only
  rw [List.filterMap_append, ← List.append_assoc, ← hcaptions]
  generalize (if (el.tag == ascii "picture") = true then
      ((captionsOf env.page env.res handlers b el.children).1,
        (captionsOf env.page env.res handlers b el.children).2, [])
    else floatCaptions env handlers b el.children _) = captions
  cases (if (el.tag == ascii "picture") = true then some el else firstChild
    (ascii "picture") el.children) with
  | none =>
    dsimp only
    rw [List.filterMap_nil, List.append_nil, Builder.levels, levels_attach]
    rfl
  | some host =>
    dsimp only
    rw [levels_dispatchAll env hbelow]
    congr 1
    rw [Builder.levels, levels_charts]
    refine (congrArg (List.filterMap _) (LayoutWriter.classifyPicture_texts _ _ _ _)).trans ?_
    refine (levels_applyLayer _ _ _).trans ((levels_attach _ _ _ _).trans ?_)
    rfl

theorem levels_codeGroup (hbelow : Lists handlers below) (parent : Option BodyChild) (b : Builder)
    (el : MarkupNode) {code : MarkupNode} (hcode : (code.tag == ascii "code") = true) :
    (codeGroup env handlers parent b el code).levels =
      b.levels ++ (nodeHeadings below code).filterMap sectionLevel := by
  have htext : ∀ b, (textLike env.page env.res handlers parent b code).levels =
      b.levels ++ (nodeHeadings below code).filterMap sectionLevel := by
    intro b
    rw [← levels_dispatch env.page env.res hbelow parent b code]
    cases code with
    | text t => rfl
    | element tag attrs children =>
      obtain rfl : tag = ascii "code" := beq_iff_eq.1 hcode
      rw [dispatch, if_neg (by decide), if_pos (by decide), textLike]
  have hlevels := (htext { (satellites env b el.children).1 with lastCode := none }).trans
    (congrArg (· ++ (nodeHeadings below code).filterMap sectionLevel)
      (levels_satellites env el.children b))
  unfold codeGroup
  dsimp only
  split
  · rw [Builder.levels, levels_attach]
    exact hlevels
  · exact hlevels

theorem levels_group (hbelow : Lists handlers below) (parent : Option BodyChild) (b : Builder)
    (el : MarkupNode) : (group env handlers parent b el).levels =
      b.levels ++ (groupHeadings below el).filterMap sectionLevel := by
  unfold group groupHeadings
  dsimp only
  split
  · exact levels_walkChildren env.page env.res hbelow _ _ el.children
  · cases floatHost el.children with
    | some host =>
      dsimp only
      split
      · exact levels_picture env hbelow parent b el
      · split
        · rename_i hcode
          exact levels_codeGroup env hbelow parent b el hcode
        · exact levels_table env hbelow parent b el
    | none => exact levels_walkChildren env.page env.res hbelow parent b el.children

theorem lists_block (hbelow : Lists handlers below) :
    Lists (block env handlers) (blockHeadings below) := by
  intro el parent b
  unfold block blockHeadings
  split
  · exact levels_list env hbelow parent b el
  · split
    · exact levels_group env hbelow parent b el
    · split
      · exact levels_table env hbelow parent b el
      · exact levels_picture env hbelow parent b el

theorem lists_blocks : ∀ n, Lists (blocks env n) (headingsIn n)
  | 0 => fun _ _ _ => (List.append_nil _).symm
  | n + 1 => lists_block env (lists_blocks n)

end Blocks

/-! ## The levels of a document -/

section Map
variable (page : PageContext) (raster : PageRaster) (byteSizeLong : TableCell → Nat) (text : Bytes)
  (warnings : Option (List PageWarning)) {made : Document × Option (List PageWarning)}

/-- **The levels of a mapped document** are those of the headings written. -/
theorem mapDoclang_headerLevels (h : mapDoclang page raster byteSizeLong text warnings = .ok made) :
    made.1.headerLevels = (writtenHeadings text).filterMap sectionLevel := by
  unfold mapDoclang at h
  unfold writtenHeadings
  cases hroot : doclangRoot text with
  | none =>
    rw [hroot] at h
    cases h
  | some root =>
    rw [hroot] at h
    rw [LayoutWriter.headerLevels_finish page raster h]
    refine (levels_dispatchAll _ (lists_blocks _ (height root)) none _ _).trans ?_
    exact List.nil_append _

theorem headingLevel_int (el : MarkupNode) :
    -2 ^ 31 ≤ headingLevel el ∧ headingLevel el < 2 ^ 31 := by
  unfold headingLevel parseInt
  cases hparse : Option.filter _ _ with
  | none => exact ⟨by decide, by decide⟩
  | some level => simpa using (Option.filter_eq_some_iff.1 hparse).2

/-- The levels of a document are valid exactly when every heading written has a
level from 1 on. -/
theorem mapDoclang_leveled_iff (h : mapDoclang page raster byteSizeLong text warnings = .ok made) :
    made.1.Leveled ↔ ∀ el ∈ writtenHeadings text, 1 ≤ headingLevel el := by
  unfold Document.Leveled
  rw [mapDoclang_headerLevels page raster byteSizeLong text warnings h]
  constructor
  · intro hvalid el hel
    by_cases hone : headingLevel el = 1
    · exact Int.le_of_eq hone.symm
    · have := (hvalid (headingLevel el - 1)
        (List.mem_filterMap.2 ⟨el, hel, if_neg hone⟩)).1
      omega
  · intro hlevels level hlevel
    obtain ⟨el, hel, hsection⟩ := List.mem_filterMap.1 hlevel
    have hfrom := hlevels el hel
    have hint := headingLevel_int el
    unfold sectionLevel at hsection
    split at hsection
    · cases hsection
    · cases hsection
      exact ⟨by omega, by omega⟩

end Map

end VlmConvert.L3.Doclang

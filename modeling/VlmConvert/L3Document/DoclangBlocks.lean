import VlmConvert.L3Document.DoclangTable
import VlmConvert.L3Document.PictureData

/-!
# DocLang lists, groups, tables and pictures

The handlers of the DocLang builder (`src/mapping/doclang.cpp:493-850`) and
`map_doclang` (`src/mapping/doclang.cpp:929-975`). Every handler gets `dispatch`
with handlers for what stands below its element, so that the recursion runs on
fuel; `blocks_enough` shows that the height of the tree is enough.
-/
namespace VlmConvert.L3.Doclang

open Bytes L1 L2

/-! ## List items -/

def isLdiv (node : MarkupNode) : Bool := !node.isText && node.tag == ascii "ldiv"

/-- The items of a list: each `<ldiv>` and the nodes up to the next one.
mirrors src/mapping/doclang.cpp:497-519 -/
def listSegments : List MarkupNode → List (MarkupNode × List MarkupNode)
  | [] => []
  | child :: rest =>
    if isLdiv child then (child, rest.takeWhile fun node => !isLdiv node) :: listSegments rest
    else listSegments rest

/-- mirrors src/mapping/doclang.cpp:506-512 -/
def listMarker (ldiv : MarkupNode) : Bytes :=
  ((ldiv.children.find? fun child => !child.isText && child.tag == ascii "marker").map fun child =>
    trim (getText child)).getD []

/-- mirrors src/mapping/doclang.cpp:539-542 -/
def kBlocks : List Bytes :=
  ["text", "heading", "list", "group", "table", "index", "picture", "code", "formula", "caption",
    "footnote", "page_header", "page_footer"].map ascii

/-- What leading text of an item is made of. -/
def isLeading : MarkupNode → Bool
  | .text _ => true
  | .element tag _ _ => tag == ascii "content"

def leadingText : MarkupNode → Bytes
  | .text t => t
  | .element tag attrs children => getText (.element tag attrs children)

/-- Blank text, a list or a picture. -/
def isNested : MarkupNode → Bool
  | .text t => blank t
  | .element tag _ _ => tag == ascii "list" || tag == ascii "picture"

/-- The five ways an item is written. -/
inductive ItemShape
  | empty
  | nested (leading : Bytes) (elements : List MarkupNode)
  | runs (content : List MarkupNode)
  | text (el : MarkupNode)
  | blocks (elements : List MarkupNode)

/-- What is dispatched, or written as runs. -/
def ItemShape.nodes : ItemShape → List MarkupNode
  | .empty | .text _ => []
  | .nested _ elements | .runs elements | .blocks elements => elements

/-- mirrors src/mapping/doclang.cpp:535-602 -/
def itemShape (nodes : List MarkupNode) : ItemShape :=
  let content := nodes.dropWhile leadsBody
  match content with
  | [] => .empty
  | first :: _ =>
    if first.isText || !kBlocks.contains first.tag then
      let leading := trim ((content.takeWhile isLeading).flatMap leadingText)
      let rest := content.dropWhile isLeading
      if !leading.isEmpty && rest.all isNested then
        .nested leading (rest.filter fun node => !node.isText)
      else .runs content
    else
      match content.filter fun node => !node.isText with
      | [el] => if el.tag == ascii "text" && (simpleText el).isSome then .text el else .blocks [el]
      | elements => .blocks elements

/-! ## Floats -/

/-- mirrors src/mapping/doclang.cpp:605-612 -/
def firstChild (tag : Bytes) (children : List MarkupNode) : Option MarkupNode :=
  children.find? fun child => !child.isText && child.tag == tag

/-- mirrors src/mapping/doclang.cpp:615-616 -/
def kFloatHosts : List Bytes := ["picture", "table", "index", "code"].map ascii

def kSatellites : List Bytes := ["text", "footnote", "caption"].map ascii

/-- mirrors src/mapping/doclang.cpp:614-632 -/
def floatHost (children : List MarkupNode) : Option MarkupNode :=
  let elements := children.filter fun child => !child.isText
  if elements.all fun child => kFloatHosts.contains child.tag || kSatellites.contains child.tag then
    match elements.filter fun child => kFloatHosts.contains child.tag with
    | [host] => some host
    | _ => none
  else none

/-- mirrors src/mapping/doclang.cpp:651-658 -/
def attach (w : LayoutWriter) (owner : BodyChild) (captions footnotes : List BodyChild) :
    LayoutWriter :=
  footnotes.foldl (fun w footnote => w.linkFootnote owner footnote)
    (captions.foldl (fun w caption => w.linkCaption owner caption) w)

/-- The text of a cell in its place of a grid that grows as it is filled.
mirrors src/mapping/doclang.cpp:819-827 -/
def placeText (rows : List (List Bytes)) (cell : SpanCell) : List (List Bytes) :=
  (rows ++ List.replicate (cell.row + 1 - rows.length) []).modify cell.row fun row =>
    (row ++ List.replicate (cell.col + 1 - row.length) []).set cell.col cell.text

/-- What a picture's body starts with: text, `<src>` and `<tabular>`.
mirrors src/mapping/doclang.cpp:809-832 -/
def leadsPicture (node : MarkupNode) : Bool :=
  node.isText || node.tag == ascii "src" || node.tag == ascii "tabular"

/-- The elements of a picture that are dispatched.
mirrors src/mapping/doclang.cpp:833-837 -/
def pictureElements (children : List MarkupNode) : List MarkupNode :=
  ((bodyNodes children).dropWhile leadsPicture).filter fun node =>
    !node.isText && node.tag != ascii "caption"

/-- mirrors src/mapping/doclang.cpp:882-897 -/
def groupLabelOf (label : Bytes) : GroupLabel :=
  ([(ascii "list", GroupLabel.list), (ascii "ordered_list", .orderedList),
    (ascii "chapter", .chapter),
    (ascii "section", .section_), (ascii "sheet", .sheet), (ascii "slide", .slide),
    (ascii "form_area", .formArea), (ascii "key_value_area", .keyValueArea),
    (ascii "comment_section", .commentSection), (ascii "inline", .inline_),
    (ascii "picture_area", .pictureArea)].lookup label).getD .unspecified

/-! ## The handlers -/

/-- What a mapping has: the page, its raster, the size protobuf gives a table
cell, and the grid of the locations. -/
structure Env where
  page : PageContext
  raster : PageRaster
  byteSizeLong : TableCell → Nat
  res : Resolution := {}

section Handlers
variable (env : Env) (handlers : MarkupNode → Option BodyChild → Builder → Builder)

def dispatchAll (parent : Option BodyChild) (b : Builder) (nodes : List MarkupNode) : Builder :=
  nodes.foldl (dispatch env.page env.res handlers parent) b

/-- mirrors src/mapping/doclang.cpp:522-602 -/
def listItem (ordered : Bool) (group : BodyChild) (b : Builder) (ldiv : MarkupNode)
    (nodes : List MarkupNode) : Builder :=
  let box := boxFrom env.page env.res [] env.res.width env.res.height nodes
  let item := fun box text =>
    LayoutWriter.listItem env.page b.writer box text (some group) ordered (listMarker ldiv)
  match itemShape nodes with
  | .empty => { b with writer := (item box []).1 }
  | .nested leading elements =>
    let r := item box leading
    dispatchAll env handlers (some r.2) { b with writer := r.1 } elements
  | .runs content =>
    let r := item box []
    let runs := r.1.inlineGroup (some r.2)
    inlineRuns env.page env.res handlers false runs.2 none { b with writer := runs.1 } content
  | .text el =>
    { b with writer := (item (headBox env.page env.res el.children) (trim (getText el))).1 }
  | .blocks elements =>
    let r := item box []
    dispatchAll env handlers (some r.2) { b with writer := r.1 } elements

/-- mirrors src/mapping/doclang.cpp:494-521 -/
def list (parent : Option BodyChild) (b : Builder) (el : MarkupNode) : Builder :=
  let group := b.writer.listGroup parent
  (listSegments el.children).foldl
    (fun b segment =>
      listItem env handlers (el.attr (ascii "class") [] == ascii "ordered") group.2 b
      segment.1 segment.2)
    { b with writer := group.1 }

/-- `<text>` siblings are extra captions, `<footnote>` siblings footnotes.
mirrors src/mapping/doclang.cpp:634-649 -/
def satellites (b : Builder) : List MarkupNode → Builder × List BodyChild × List BodyChild
  | [] => (b, [], [])
  | child :: rest =>
    let isCaption := child.tag == ascii "text"
    let text := trim (getText child)
    if child.isText || !(isCaption || child.tag == ascii "footnote") || text.isEmpty then
      satellites b rest
    else
      let item := b.writer.styledText env.page (headBox env.page env.res child.children) text none
        (if isCaption then .caption else .footnote) none []
      let more := satellites { b with writer := item.1 } rest
      if isCaption then (more.1, item.2 :: more.2.1, more.2.2)
      else (more.1, more.2.1, item.2 :: more.2.2)

/-- The captions of a float group, or of its host when it has none itself, and
its satellites behind them.
mirrors src/mapping/doclang.cpp:754-764, 786-793 -/
def floatCaptions (b : Builder) (children : List MarkupNode) (host : Option MarkupNode) :
    Builder × List BodyChild × List BodyChild :=
  let around := satellites env b children
  let own := captionsOf env.page env.res handlers around.1 children
  let captions := match host with
    | some host =>
        if own.2.isEmpty then captionsOf env.page env.res handlers own.1 host.children else own
    | none => own
  (captions.1, captions.2 ++ around.2.1, around.2.2)

def isTable (tag : Bytes) : Bool := tag == ascii "table" || tag == ascii "index"

/-- mirrors src/mapping/doclang.cpp:773-778 -/
def tableItem (parent : Option BodyChild) (b : Builder) (otsl : MarkupNode)
    (captions footnotes : List BodyChild) : Builder :=
  let item := LayoutWriter.table env.page env.byteSizeLong b.writer
    (headBox env.page env.res otsl.children) parent (otslCells (bodyNodes otsl.children))
  let w := if otsl.tag == ascii "index" then { item.1 with doc := { item.1.doc with
      tables := item.1.doc.tables.modify item.2.index fun table =>
        { table with label := .documentIndex } } }
    else item.1
  { b with writer := attach (applyLayer w item.2 otsl.children) item.2 captions footnotes }

/-- mirrors src/mapping/doclang.cpp:749-779 -/
def table (parent : Option BodyChild) (b : Builder) (el : MarkupNode) : Builder :=
  if isTable el.tag then
    let captions := captionsOf env.page env.res handlers b el.children
    tableItem env parent captions.1 el captions.2 []
  else
    let otsl := (firstChild (ascii "table") el.children).or (firstChild (ascii "index") el.children)
    let captions := floatCaptions env handlers b el.children otsl
    match otsl with
    | some otsl => tableItem env parent captions.1 otsl captions.2.1 captions.2.2
    | none =>
      let item := LayoutWriter.table env.page env.byteSizeLong captions.1.writer none parent []
      { captions.1 with writer := attach item.1 item.2 captions.2.1 captions.2.2 }

/-- The chart data of a `<tabular>`.
mirrors src/mapping/doclang.cpp:817-830 -/
def addChart (picture : BodyChild) (w : LayoutWriter) (node : MarkupNode) : LayoutWriter :=
  if node.tag == ascii "tabular" then
    w.setTabularChart picture [] ((otslCells (bodyNodes node.children)).foldl placeText [])
      (ascii "doclang")
  else w

/-- mirrors src/mapping/doclang.cpp:781-838 -/
def picture (parent : Option BodyChild) (b : Builder) (el : MarkupNode) : Builder :=
  let isPicture := el.tag == ascii "picture"
  let host := if isPicture then some el else firstChild (ascii "picture") el.children
  let captions := if isPicture then
      let own := captionsOf env.page env.res handlers b el.children
      (own.1, own.2, [])
    else floatCaptions env handlers b el.children host
  let item := LayoutWriter.picture env.page env.raster captions.1.writer
    (host.bind fun host => headBox env.page env.res host.children) parent
  let w := attach item.1 item.2 captions.2.1 captions.2.2
  match host with
  | none => { captions.1 with writer := w }
  | some host =>
    let w := (applyLayer w item.2 host.children).classifyPicture item.2 (headLabel host.children)
      (ascii "doclang")
    let w := ((bodyNodes host.children).takeWhile leadsPicture).foldl (addChart item.2) w
    dispatchAll env handlers (some item.2) { captions.1 with writer := w }
      (pictureElements host.children)

/-- mirrors src/mapping/doclang.cpp:840-850 -/
def codeGroup (parent : Option BodyChild) (b : Builder) (el code : MarkupNode) : Builder :=
  let around := satellites env b el.children
  let b := textLike env.page env.res handlers parent { around.1 with lastCode := none } code
  match b.lastCode with
  | some item => { b with writer := attach b.writer item around.2.1 around.2.2 }
  | none => b

/-- mirrors src/mapping/doclang.cpp:878-908 -/
def group (parent : Option BodyChild) (b : Builder) (el : MarkupNode) : Builder :=
  let name := el.attr (ascii "name") []
  if !name.isEmpty then
    let group := b.writer.group parent name (groupLabelOf (headLabel el.children))
    walkChildren env.page env.res handlers (some group.2) { b with writer := group.1 } el.children
  else
    match floatHost el.children with
    | some host =>
      if host.tag == ascii "picture" then picture env handlers parent b el
      else if host.tag == ascii "code" then codeGroup env handlers parent b el host
      else table env handlers parent b el
    | none => walkChildren env.page env.res handlers parent b el.children

/-- mirrors src/mapping/doclang.cpp:876-912 -/
def block (el : MarkupNode) (parent : Option BodyChild) (b : Builder) : Builder :=
  if el.tag == ascii "list" then list env handlers parent b el
  else if el.tag == ascii "group" then group env handlers parent b el
  else if isTable el.tag then table env handlers parent b el
  else picture env handlers parent b el

end Handlers

/-- The handlers of a tree no higher than `n`. -/
def blocks (env : Env) : Nat → MarkupNode → Option BodyChild → Builder → Builder
  | 0, _, _, b => b
  | n + 1, el, parent, b => block env (blocks env n) el parent b

/-! ## The fuel suffices -/

section Fuel
variable (env : Env) {h h' : MarkupNode → Option BodyChild → Builder → Builder} {k : Nat}

/-- The handlers agree on trees no higher than `k`. -/
def Agree (k : Nat) (h h' : MarkupNode → Option BodyChild → Builder → Builder) : Prop :=
  ∀ el, height el ≤ k → h el = h' el

mutual
theorem inlineRuns_congr (hagree : Agree k h h') : ∀ (skip : Bool) (parent : BodyChild)
    (formatting : Option Formatting) (b : Builder) (nodes : List MarkupNode), heightIn nodes ≤ k →
    inlineRuns env.page env.res h skip parent formatting b nodes =
      inlineRuns env.page env.res h' skip parent formatting b nodes
  | _, _, _, _, [], _ => rfl
  | skip, parent, formatting, b, .text t :: rest, hle => by
    have hrest := (Nat.max_le.1 hle).2
    rw [inlineRuns, inlineRuns, inlineRuns_congr hagree skip parent formatting b rest hrest]
    dsimp only
    rw [inlineRuns_congr hagree false parent formatting _ rest hrest]
  | skip, parent, formatting, b, .element tag attrs children :: rest, hle => by
    obtain ⟨hnode, hrest⟩ := Nat.max_le.1 hle
    have hchildren : heightIn children ≤ k := Nat.le_of_succ_le hnode
    rw [inlineRuns, inlineRuns, inlineRuns_congr hagree skip parent formatting b rest hrest,
      inlineRuns_congr hagree false parent _ b children hchildren,
      inlineRuns_congr hagree false parent formatting _ rest hrest,
      dispatch_congr hagree (some parent) b (.element tag attrs children) hnode,
      inlineRuns_congr hagree false parent formatting _ rest hrest]
theorem dispatch_congr (hagree : Agree k h h') : ∀ (parent : Option BodyChild) (b : Builder)
    (node : MarkupNode), height node ≤ k →
    dispatch env.page env.res h parent b node = dispatch env.page env.res h' parent b node
  | _, _, .text _, _ => rfl
  | parent, b, .element tag attrs children, hle => by
    have hchildren : heightIn children ≤ k := Nat.le_of_succ_le hle
    have hruns : (fun skip parent formatting b =>
          inlineRuns env.page env.res h skip parent formatting b children) =
        fun skip parent formatting b =>
          inlineRuns env.page env.res h' skip parent formatting b children := by
      funext skip parent formatting b
      exact inlineRuns_congr hagree skip parent formatting b children hchildren
    have hcaptions : (fun b => captionsOf env.page env.res h b children) =
        fun b => captionsOf env.page env.res h' b children := by
      funext b
      exact captionsOf_congr hagree b children hchildren
    rw [dispatch, dispatch, hruns, hcaptions, hagree _ hle,
      walkChildren_congr hagree parent b children hchildren]
theorem walkChildren_congr (hagree : Agree k h h') : ∀ (parent : Option BodyChild) (b : Builder)
    (nodes : List MarkupNode), heightIn nodes ≤ k →
    walkChildren env.page env.res h parent b nodes = walkChildren env.page env.res h' parent b nodes
  | _, _, [], _ => rfl
  | parent, b, .text t :: rest, hle => by
    rw [walkChildren, walkChildren]
    exact walkChildren_congr hagree parent b rest (Nat.max_le.1 hle).2
  | parent, b, .element tag attrs children :: rest, hle => by
    obtain ⟨hnode, hrest⟩ := Nat.max_le.1 hle
    rw [walkChildren, walkChildren, walkChildren_congr hagree parent b rest hrest,
      dispatch_congr hagree parent b (.element tag attrs children) hnode,
      walkChildren_congr hagree parent _ rest hrest]
theorem captionsOf_congr (hagree : Agree k h h') : ∀ (b : Builder) (nodes : List MarkupNode),
    heightIn nodes ≤ k →
    captionsOf env.page env.res h b nodes = captionsOf env.page env.res h' b nodes
  | _, [], _ => rfl
  | b, .text t :: rest, hle => by
    rw [captionsOf, captionsOf]
    exact captionsOf_congr hagree b rest (Nat.max_le.1 hle).2
  | b, .element tag attrs children :: rest, hle => by
    obtain ⟨hnode, hrest⟩ := Nat.max_le.1 hle
    have hchildren : heightIn children ≤ k := Nat.le_of_succ_le hnode
    simp only [captionsOf, fun b => captionsOf_congr hagree b rest hrest,
      fun skip parent formatting b =>
        inlineRuns_congr hagree skip parent formatting b children hchildren]
end

theorem dispatchAll_congr (hagree : Agree k h h') (parent : Option BodyChild)
    (nodes : List MarkupNode)
    (hle : ∀ node ∈ nodes, height node ≤ k) : ∀ b : Builder,
    dispatchAll env h parent b nodes = dispatchAll env h' parent b nodes := by
  unfold dispatchAll
  induction nodes with
  | nil => exact fun _ => rfl
  | cons node nodes ih =>
    intro b
    rw [List.foldl_cons, List.foldl_cons,
      dispatch_congr env hagree parent b node (hle node List.mem_cons_self)]
    exact ih (fun node hnode => hle node (List.mem_cons_of_mem _ hnode)) _

theorem mem_children {l : List MarkupNode} (hle : heightIn l ≤ k) {node : MarkupNode}
    (hnode : node ∈ l) :
    height node ≤ k :=
  Nat.le_trans (height_le_heightIn hnode) hle

theorem heightIn_of_mem {node : MarkupNode} (hle : height node ≤ k) :
    heightIn node.children ≤ k := by
  have := height_children node
  omega

theorem mem_itemShape {nodes : List MarkupNode} {node : MarkupNode}
    (hnode : node ∈ (itemShape nodes).nodes) : node ∈ nodes := by
  have hcontent : ∀ {node}, node ∈ nodes.dropWhile leadsBody → node ∈ nodes :=
    fun h => (List.dropWhile_suffix _).mem h
  unfold itemShape at hnode
  dsimp only at hnode
  split at hnode
  · cases hnode
  · split at hnode
    · split at hnode
      · exact hcontent ((List.dropWhile_suffix _).mem (List.mem_of_mem_filter hnode))
      · exact hcontent hnode
    · split at hnode
      · rename_i el hel
        split at hnode
        · cases hnode
        · rw [ItemShape.nodes, ← hel] at hnode
          exact hcontent (List.mem_of_mem_filter hnode)
      · exact hcontent (List.mem_of_mem_filter hnode)

theorem mem_listSegments {segment : MarkupNode × List MarkupNode} : ∀ {children : List MarkupNode},
    segment ∈ listSegments children → ∀ node ∈ segment.2, node ∈ children
  | [], hsegment, _, _ => by cases hsegment
  | child :: rest, hsegment, node, hnode => by
    rw [listSegments] at hsegment
    split at hsegment
    · rcases List.mem_cons.1 hsegment with rfl | hsegment
      · exact List.mem_cons_of_mem _ ((List.takeWhile_prefix _).mem hnode)
      · exact List.mem_cons_of_mem _ (mem_listSegments hsegment node hnode)
    · exact List.mem_cons_of_mem _ (mem_listSegments hsegment node hnode)

theorem listItem_congr (hagree : Agree k h h') (ordered : Bool) (group : BodyChild) (b : Builder)
    (ldiv : MarkupNode) (nodes : List MarkupNode) (hle : ∀ node ∈ nodes, height node ≤ k) :
    listItem env h ordered group b ldiv nodes = listItem env h' ordered group b ldiv nodes := by
  have hshape : ∀ node ∈ (itemShape nodes).nodes, height node ≤ k :=
    fun node hnode => hle node (mem_itemShape hnode)
  unfold listItem
  cases hitem : itemShape nodes with
  | empty => rfl
  | text el => rfl
  | nested leading elements =>
    rw [hitem] at hshape
    exact dispatchAll_congr env hagree _ elements hshape _
  | blocks elements =>
    rw [hitem] at hshape
    exact dispatchAll_congr env hagree _ elements hshape _
  | runs content =>
    rw [hitem] at hshape
    exact inlineRuns_congr env hagree _ _ _ _ content (heightIn_le hshape)

theorem list_congr (hagree : Agree k h h') (parent : Option BodyChild) (b : Builder)
    (el : MarkupNode)
    (hle : heightIn el.children ≤ k) : list env h parent b el = list env h' parent b el := by
  refine List.foldl_ext _ _ _ fun b segment hsegment => ?_
  exact listItem_congr env hagree _ _ b segment.1 segment.2
    fun node hnode => mem_children hle (mem_listSegments hsegment node hnode)

theorem mem_firstChild {tag : Bytes} {children : List MarkupNode} {child : MarkupNode}
    (hchild : firstChild tag children = some child) : child ∈ children :=
  List.mem_of_find?_eq_some hchild

theorem floatCaptions_congr (hagree : Agree k h h') (b : Builder) (children : List MarkupNode)
    (host : Option MarkupNode) (hle : heightIn children ≤ k)
    (hhost : ∀ node ∈ host, heightIn node.children ≤ k) :
    floatCaptions env h b children host = floatCaptions env h' b children host := by
  unfold floatCaptions
  dsimp only
  rw [captionsOf_congr env hagree _ children hle]
  cases host with
  | none => rfl
  | some host =>
    dsimp only
    rw [captionsOf_congr env hagree _ host.children (hhost host rfl)]

theorem table_congr (hagree : Agree k h h') (parent : Option BodyChild) (b : Builder)
    (el : MarkupNode)
    (hle : heightIn el.children ≤ k) : table env h parent b el = table env h' parent b el := by
  have hotsl :
    ∀ node ∈ (firstChild (ascii "table") el.children).or (firstChild (ascii "index") el.children),
      heightIn node.children ≤ k := by
    intro node hnode
    refine heightIn_of_mem (mem_children hle ?_)
    rcases Option.or_eq_some_iff.1 hnode with hnode | ⟨-, hnode⟩
    · exact mem_firstChild hnode
    · exact mem_firstChild hnode
  unfold table
  dsimp only
  rw [captionsOf_congr env hagree b el.children hle,
    floatCaptions_congr env hagree b el.children _ hle hotsl]

theorem picture_congr (hagree : Agree k h h') (parent : Option BodyChild) (b : Builder)
    (el : MarkupNode)
    (hle : heightIn el.children ≤ k) : picture env h parent b el = picture env h' parent b el := by
  have hhost : ∀ node ∈ (if el.tag == ascii "picture" then some el
      else firstChild (ascii "picture") el.children), heightIn node.children ≤ k := by
    intro node hnode
    split at hnode
    · cases hnode
      exact hle
    · exact heightIn_of_mem (mem_children hle (mem_firstChild hnode))
  unfold picture
  dsimp only
  rw [captionsOf_congr env hagree b el.children hle,
    floatCaptions_congr env hagree b el.children _ hle hhost]
  split
  · rfl
  · rename_i host heq
    refine dispatchAll_congr env hagree _ _ (fun node hnode => mem_children (hhost host heq) ?_) _
    have hbody := (List.dropWhile_suffix _).mem (List.mem_of_mem_filter hnode)
    exact (List.dropWhile_suffix _).mem hbody

theorem codeGroup_congr (hagree : Agree k h h') (parent : Option BodyChild) (b : Builder)
    (el code : MarkupNode) (hle : heightIn code.children ≤ k) :
    codeGroup env h parent b el code = codeGroup env h' parent b el code := by
  have htext : ∀ b, textLike env.page env.res h parent b code =
    textLike env.page env.res h' parent b code := by
    intro b
    cases code with
    | text t => rfl
    | element tag attrs children =>
      simp only [textLike, fun b => captionsOf_congr env hagree b children hle,
        fun skip parent formatting b =>
          inlineRuns_congr env hagree skip parent formatting b children hle]
  unfold codeGroup
  dsimp only
  rw [htext]

theorem mem_floatHost {children : List MarkupNode} {host : MarkupNode}
    (hhost : floatHost children = some host) : host ∈ children := by
  unfold floatHost at hhost
  dsimp only at hhost
  split at hhost
  · split at hhost
    · rename_i only honly
      cases hhost
      have hmem : host ∈ [host] := List.mem_singleton_self host
      rw [← honly] at hmem
      exact List.mem_of_mem_filter (List.mem_of_mem_filter hmem)
    · cases hhost
  · cases hhost

theorem group_congr (hagree : Agree k h h') (parent : Option BodyChild) (b : Builder)
    (el : MarkupNode)
    (hle : heightIn el.children ≤ k) : group env h parent b el = group env h' parent b el := by
  unfold group
  dsimp only
  split
  · exact walkChildren_congr env hagree _ _ el.children hle
  · split
    · rename_i host hhost
      have hcode := heightIn_of_mem (mem_children hle (mem_floatHost hhost))
      rw [picture_congr env hagree parent b el hle,
        codeGroup_congr env hagree parent b el host hcode, table_congr env hagree parent b el hle]
    · exact walkChildren_congr env hagree _ _ el.children hle

theorem block_congr (hagree : Agree k h h') (el : MarkupNode) (hle : heightIn el.children ≤ k) :
    block env h el = block env h' el := by
  funext parent b
  unfold block
  rw [list_congr env hagree parent b el hle, group_congr env hagree parent b el hle,
    table_congr env hagree parent b el hle, picture_congr env hagree parent b el hle]

/-- **The height of a tree is fuel enough**: more does not change what is
written. -/
theorem blocks_enough : ∀ {n m : Nat}, n ≤ m → Agree n (blocks env n) (blocks env m)
  | 0, _, _ => fun el hle => by
    have := height_children el
    omega
  | n + 1, m + 1, hnm => fun el hle => by
    have := height_children el
    exact block_congr env (blocks_enough (Nat.le_of_succ_le_succ hnm)) el (by omega)

end Fuel

/-! ## The mapper -/

/-- `<doclang` with a `>` or whitespace behind it, and a `>` further on. -/
def opensDoclang (l : Bytes) : Bool :=
  (ascii "<doclang").isPrefixOf l && match l.drop 8 with
    | c :: rest => c == 0x3E || (isSpace c && rest.contains 0x3E)
    | [] => false

/-- mirrors src/mapping/doclang.cpp:929-951 -/
def doclangFragment (text : Bytes) : Option Bytes :=
  if text.tails.any opensDoclang then
    match findSub (ascii "<doclang") text with
    | none => none
    | some (_, start) =>
      (findSub (ascii "</doclang>") start).map fun r => r.1 ++ ascii "</doclang>"
  else none

/-- mirrors src/mapping/doclang.cpp:87-104 -/
def setResolution (root : MarkupNode) : Resolution :=
  match findElement (ascii "default_resolution") root with
  | none => {}
  | some res =>
    match parseInt (res.attr (ascii "width") (ascii "0")),
      parseInt (res.attr (ascii "height") (ascii "0")) with
    | some width, some height =>
      { width := if width > 0 then width else 512
        both := if width > 0 then width else 512
        height := if height > 0 then height else 512 }
    | _, _ => {}

/-- mirrors src/mapping/doclang.cpp:106-112 -/
def walkRoot (env : Env) (root : MarkupNode) (b : Builder) : Builder :=
  dispatchAll env (blocks env (height root)) none b
    (root.children.filter fun child => !child.isText)

/-- The element a response is read from. -/
def doclangRoot (text : Bytes) : Option MarkupNode :=
  (doclangFragment text).bind fun fragment =>
    findElement (ascii "doclang") (parseMarkup .xml fragment)

/-- mirrors src/mapping/doclang.cpp:955-973 -/
def mapDoclang (page : PageContext) (raster : PageRaster) (byteSizeLong : TableCell → Nat)
    (text : Bytes)
    (warnings : Option (List PageWarning)) : Except Bytes (Document × Option (List PageWarning)) :=
  match doclangRoot text with
  | none => .error (ascii "No <doclang> XML fragment found in VLM response.")
  | some root =>
    let b := walkRoot ⟨page, raster, byteSizeLong, setResolution root⟩ root
      { writer := { warnings := warnings } }
    LayoutWriter.finish page raster b.writer (ascii "DocLang") true

end VlmConvert.L3.Doclang

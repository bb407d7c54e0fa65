import VlmConvert.L1Text.Markup
import VlmConvert.L3Document.LayoutWriter

/-!
# DocLang text elements

The text part of the DocLang mapper (`src/mapping/doclang.cpp:1-478, 853-917`):
heads, `get_text`, the one-run test, and the three ways `text_like` writes an
element: as one run, as a host with an inline group, or as an inline group.

Lists, groups, tables and pictures have handlers of their own
(`DoclangBlocks`); no element below a text element of the text vocabulary is
one, and here they are a parameter (`handlers`).
-/
namespace VlmConvert.L3

open Bytes L1 L2

namespace Doclang

/-! ## Tags -/

/-- mirrors src/mapping/doclang.cpp:28-30 -/
def kHeadTags : List Bytes :=
  ["location", "layer", "label", "thread", "custom", "hour", "minute", "second",
    "centisecond"].map ascii

/-- mirrors src/mapping/doclang.cpp:31-32 -/
def kFormatTags : List Bytes :=
  ["bold", "italic", "underline", "strikethrough", "subscript", "superscript"].map ascii

/-- mirrors src/mapping/doclang.cpp:224-227 -/
def kSimple : List Bytes :=
  ["location", "layer", "label", "br", "bold", "italic", "underline", "strikethrough", "subscript",
    "superscript", "rtl", "handwriting", "checkbox", "content"].map ascii

/-- mirrors src/mapping/doclang.cpp:396-397 -/
def kHosts : List Bytes := ["text", "caption", "footnote", "page_header", "page_footer"].map ascii

/-- mirrors src/mapping/doclang.cpp:853-854 -/
def kSkip : List Bytes :=
  ["head", "location", "layer", "label", "custom", "caption", "src"].map ascii

/-- mirrors src/mapping/doclang.cpp:863-866 -/
def kTextLike : List Bytes :=
  ["text", "caption", "footnote", "page_header", "page_footer", "code", "formula", "ldiv", "bold",
    "italic", "underline", "strikethrough", "subscript", "superscript", "content"].map ascii

/-- mirrors src/mapping/doclang.cpp:37-39 -/
def blank (text : Bytes) : Bool := text.all isBlank

/-- mirrors src/mapping/doclang.cpp:41-49 -/
def parseInt (text : Bytes) : Option Int :=
  (fromChars (trim text)).filter fun value => decide (-2 ^ 31 ≤ value ∧ value < 2 ^ 31)

inductive Script
  | sub | super
  deriving DecidableEq, Repr

structure Formatting where
  bold : Bool := false
  italic : Bool := false
  underline : Bool := false
  strikethrough : Bool := false
  script : Option Script := none
  deriving DecidableEq, Repr

/-- mirrors src/mapping/doclang.cpp:51-65 -/
def mergeFormat (tag : Bytes) (f : Formatting) : Formatting :=
  if tag == ascii "bold" then { f with bold := true }
  else if tag == ascii "italic" then { f with italic := true }
  else if tag == ascii "underline" then { f with underline := true }
  else if tag == ascii "strikethrough" then { f with strikethrough := true }
  else if tag == ascii "subscript" then { f with script := some .sub }
  else if tag == ascii "superscript" then { f with script := some .super }
  else f

/-- The message: a field's key and value for each field that is set.
mirrors src/proto/ai/pipestream/document/v1/document.proto:563-568, 843-848 -/
def formattingWire (f : Formatting) : Wire where
  bytes := (if f.bold then [0x08, 0x01] else []) ++ (if f.italic then [0x10, 0x01] else []) ++
    (if f.underline then [0x18, 0x01] else []) ++ (if f.strikethrough then [0x20, 0x01] else []) ++
    (match f.script with
      | some .sub => [0x28, 0x02]
      | some .super => [0x28, 0x03]
      | none => [])

/-- mirrors src/mapping/doclang.cpp:67-80 -/
def layerOf (value : Bytes) : Option ContentLayer :=
  [(ascii "body", ContentLayer.body), (ascii "furniture", .furniture),
    (ascii "background", .background),
    (ascii "invisible", .invisible), (ascii "notes", .notes)].lookup value

/-! ## Heads -/

/-- mirrors src/mapping/doclang.cpp:116-131 -/
def headNodes : List MarkupNode → List MarkupNode
  | [] => []
  | .text t :: rest => if blank t then headNodes rest else []
  | .element tag attrs children :: rest =>
    if kHeadTags.contains tag then .element tag attrs children :: headNodes rest else []

/-- What a body does not start with. -/
def leadsBody : MarkupNode → Bool
  | .text t => blank t
  | .element tag _ _ => kHeadTags.contains tag

/-- mirrors src/mapping/doclang.cpp:133-145 -/
def bodyNodes (children : List MarkupNode) : List MarkupNode := children.dropWhile leadsBody

/-- The grid of the page's locations. -/
structure Resolution where
  width : Int := 512
  height : Int := 512
  both : Int := 512

section Head
variable (page : PageContext) (res : Resolution)

/-- The box of four values on a grid. -/
def quartetBox (x1 y1 x2 y2 resX resY : Int) : BoundingBox :=
  LayoutWriter.scaledBox page (Float.ofInt (min x1 x2)) (Float.ofInt (min y1 y2))
    (Float.ofInt (max x1 x2))
    (Float.ofInt (max y1 y2)) (if resX > 0 then page.width.toFloat / Float.ofInt resX else 1)
    (if resY > 0 then page.height.toFloat / Float.ofInt resY else 1)

def boxFrom (values : List Int) (resX resY : Int) : List MarkupNode → Option BoundingBox
  | [] => none
  | node :: rest =>
    if node.isText || node.tag != ascii "location" then boxFrom values resX resY rest
    else
      let values := values ++ [(parseInt (node.attr (ascii "value") (ascii "0"))).getD 0]
      let own := (parseInt (node.attr (ascii "resolution") [])).getD res.both
      let resX := if node.hasAttr (ascii "resolution") then own else resX
      let resY := if node.hasAttr (ascii "resolution") then own else resY
      match values with
      | [x1, y1, x2, y2] => some (quartetBox page x1 y1 x2 y2 resX resY)
      | _ => boxFrom values resX resY rest

/-- mirrors src/mapping/doclang.cpp:148-172 -/
def headBox (children : List MarkupNode) : Option BoundingBox :=
  boxFrom page res [] res.width res.height (headNodes children)

end Head

/-- mirrors src/mapping/doclang.cpp:176-183 -/
def headLayer (children : List MarkupNode) : Option ContentLayer :=
  ((headNodes children).find? (·.tag == ascii "layer")).bind fun node =>
    layerOf (node.attr (ascii "value") [])

/-- mirrors src/mapping/doclang.cpp:185-192 -/
def headLabel (children : List MarkupNode) : Bytes :=
  (((headNodes children).find? (·.tag == ascii "label")).map fun node =>
    node.attr (ascii "value") []).getD []

/-! ## Text -/

/-- A text child's part of the text; `content` keeps it as it is. -/
def ownText (tag text : Bytes) : Bytes :=
  if blank text then [] else if tag == ascii "content" then text else trim text

mutual
/-- mirrors src/mapping/doclang.cpp:203-220 -/
def getText : MarkupNode → Bytes
  | .text _ => []
  | .element tag _ children => getTextIn tag children
def getTextIn (tag : Bytes) : List MarkupNode → Bytes
  | [] => []
  | .text t :: rest => ownText tag t ++ getTextIn tag rest
  | .element t attrs children :: rest =>
    (if t == ascii "location" || t == ascii "custom" then []
      else if t == ascii "br" then [0x0A]
      else getText (.element t attrs children)) ++ getTextIn tag rest
end

mutual
/-- mirrors src/mapping/doclang.cpp:222-254 -/
def simpleText : MarkupNode → Option Bytes
  | .text _ => none
  | .element tag _ children => simpleTextIn tag none children
def simpleTextIn (tag : Bytes) (result : Option Bytes) : List MarkupNode → Option Bytes
  | [] => result
  | .text t :: rest =>
    if blank t then simpleTextIn tag result rest
    else if result.isSome then none
    else simpleTextIn tag (some (if tag == ascii "content" then t else trim t)) rest
  | .element t attrs children :: rest =>
    if kHeadTags.contains t then simpleTextIn tag result rest
    else if !kSimple.contains t then none
    else
      match (simpleText (.element t attrs children)).filter (!·.isEmpty) with
      | some inner => if result.isSome then none else simpleTextIn tag (some inner) rest
      | none =>
        if !blank (getText (.element t attrs children)) then none else simpleTextIn tag result rest
end

/-- mirrors src/mapping/doclang.cpp:256-263 -/
def emptyBlock (children : List MarkupNode) : Bool := children.all leadsBody

def isFormat (tag : Bytes) : Bool := kFormatTags.contains tag || tag == ascii "rtl"

/-- The element children that are no `<location>`. -/
def ownElements (children : List MarkupNode) : List MarkupNode :=
  children.filter fun child => !child.isText && child.tag != ascii "location"

/-- A lone formatting child. -/
def hasLoneFormat (children : List MarkupNode) : Bool :=
  match ownElements children with
  | [child] => isFormat child.tag
  | _ => false

mutual
/-- The text, its formatting, and whether there is any.
mirrors src/mapping/doclang.cpp:265-284 -/
def textWithFormatting (f : Formatting × Bool) : MarkupNode → Bytes × Formatting × Bool
  | .text _ => ([], f)
  | .element tag attrs children =>
    if hasLoneFormat children then loneText f children
    else (getText (.element tag attrs children), f)
def loneText (f : Formatting × Bool) : List MarkupNode → Bytes × Formatting × Bool
  | [] => ([], f)
  | .text _ :: rest => loneText f rest
  | .element tag attrs children :: rest =>
    if tag == ascii "location" then loneText f rest
    else
      let r := textWithFormatting f (.element tag attrs children)
      (r.1, mergeFormat tag r.2.1, true)
end

/-! ## Writing -/

/-- The writer, and the code item written last.
mirrors src/mapping/doclang.cpp:920-926 -/
structure Builder where
  writer : LayoutWriter
  lastCode : Option BodyChild := none

/-- mirrors src/mapping/doclang.cpp:338-358 -/
def textLabel (tag : Bytes) : Option DocItemLabel :=
  [(ascii "text", DocItemLabel.text), (ascii "caption", .caption), (ascii "footnote", .footnote),
    (ascii "page_header", .pageHeader), (ascii "page_footer", .pageFooter), (ascii "bold", .text),
    (ascii "italic", .text), (ascii "underline", .text), (ascii "strikethrough", .text),
    (ascii "subscript", .text), (ascii "superscript", .text), (ascii "rtl", .text),
    (ascii "content", .text)].lookup tag

/-- mirrors src/mapping/doclang.cpp:194-198 -/
def applyLayer (w : LayoutWriter) (ref : BodyChild) (children : List MarkupNode) : LayoutWriter :=
  match headLayer children with
  | some layer => w.setContentLayer ref layer
  | none => w

/-- Everything written since gets the head's layer.
mirrors src/mapping/doclang.cpp:314-325 -/
def layerSubtree (textsBefore groupsBefore : Nat) (children : List MarkupNode) (b : Builder) :
    Builder :=
  match headLayer children with
  | none => b
  | some layer =>
    let texts := (List.range' textsBefore (b.writer.doc.texts.length - textsBefore)).foldl
      (fun w i => w.setContentLayer ⟨.text, i⟩ layer) b.writer
    let groups := (List.range' groupsBefore (b.writer.doc.groups.length - groupsBefore)).foldl
      (fun w i => w.setContentLayer ⟨.group, i⟩ layer) texts
    { b with writer := groups }

/-- More than one run: the element becomes a group of runs.
mirrors src/mapping/doclang.cpp:383-394 -/
def splits (el : MarkupNode) : Bool :=
  let elements := el.children.filter fun child => !child.isText && !kHeadTags.contains child.tag
  let simple := simpleText el
  let isEmpty := simple.isNone && emptyBlock el.children
  !isEmpty && (decide (elements.length > 1) || simple.isNone)

/-- The label of one run of a `<text>`.
mirrors src/mapping/doclang.cpp:456-473 -/
def runLabel (label : DocItemLabel) (children : List MarkupNode) : DocItemLabel :=
  let elements := children.filter fun child => !child.isText && !kHeadTags.contains child.tag
  (elements.findSome? fun child =>
    if child.tag == ascii "handwriting" then some .handwrittenText
    else if child.tag == ascii "checkbox" then
      if child.attr (ascii "class") [] == ascii "selected" then some .checkboxSelected
      else if child.attr (ascii "class") [] == ascii "unselected" then some .checkboxUnselected
      else none
    else none).getD label

/-- The text of a code element.
mirrors src/mapping/doclang.cpp:418-434 -/
def codeText : List MarkupNode → Bytes
  | [] => []
  | .text t :: rest => (if blank t then [] else t) ++ codeText rest
  | .element tag attrs children :: rest =>
    (if [ascii "location", ascii "layer", ascii "label", ascii "caption"].contains tag then []
      else if tag == ascii "br" then [0x0A]
      else getText (.element tag attrs children)) ++ codeText rest

section Write
variable (page : PageContext) (res : Resolution)
  (handlers : MarkupNode → Option BodyChild → Builder → Builder)

/-- One run: the element's text under its label.
mirrors src/mapping/doclang.cpp:408-478 -/
def singleRun (parent : Option BodyChild) (b : Builder) (el : MarkupNode) : Builder :=
  let box := headBox page res el.children
  let run := textWithFormatting ({}, false) el
  if run.1.isEmpty && !((simpleText el).isNone && emptyBlock el.children) then b
  else if el.tag == ascii "formula" then
    let r := b.writer.formula page box run.1 parent
    { b with writer := applyLayer r.1 r.2 el.children }
  else
    match textLabel el.tag with
    | none => b
    | some label =>
      let formatted := run.2.2 || kFormatTags.contains el.tag
      let formatting := if kFormatTags.contains el.tag then mergeFormat el.tag run.2.1 else run.2.1
      let label := if el.tag == ascii "text" then runLabel label el.children else label
      let r := b.writer.styledText page box run.1 parent label
        (if formatted then some (formattingWire formatting) else none) []
      { b with writer := applyLayer r.1 r.2 el.children }

/-- mirrors src/mapping/doclang.cpp:480-490 -/
def heading (parent : Option BodyChild) (b : Builder) (el : MarkupNode) : Builder :=
  let level := (parseInt (el.attr (ascii "level") (ascii "1"))).getD 1
  let text := trim (getText el)
  if text.isEmpty then b
  else
    let box := headBox page res el.children
    let r := if level == 1 then b.writer.title page box text parent
      else b.writer.heading page box text parent (level - 1)
    { b with writer := applyLayer r.1 r.2 el.children }

/-- Whether an element of several runs gets an item of its own for them.
mirrors src/mapping/doclang.cpp:396-398 -/
def isHost (tag : Bytes) (children : List MarkupNode) : Bool :=
  kHosts.contains tag && (tag != ascii "text" || (headBox page res children).isSome)

/-- The host item and its inline group. -/
def openHost (children : List MarkupNode) (label : DocItemLabel) (parent : Option BodyChild)
    (b : Builder) :
    Builder × BodyChild × BodyChild :=
  let host := b.writer.styledText page (headBox page res children) [] parent label none []
  let group := host.1.inlineGroup (some host.2)
  ({ b with writer := group.1 }, host.2, group.2)

/-- `text_like` on an element, given how its runs and its captions are written.
mirrors src/mapping/doclang.cpp:383-478 -/
def textLikeWith (runs : Bool → BodyChild → Option Formatting → Builder → Builder)
    (captions : Builder → Builder × List BodyChild) (parent : Option BodyChild) (b : Builder)
    (tag : Bytes) (attrs : List (Bytes × Bytes)) (children : List MarkupNode) : Builder :=
  let el := MarkupNode.element tag attrs children
  let textsBefore := b.writer.doc.texts.length
  let groupsBefore := b.writer.doc.groups.length
  if splits el then
    if isHost page res tag children then
      let host := openHost page res children ((textLabel tag).getD .text) parent b
      layerSubtree textsBefore groupsBefore children (runs true host.2.2 none host.1)
    else
      let group := b.writer.inlineGroup parent
      layerSubtree textsBefore groupsBefore children
        (runs false group.2 (if kFormatTags.contains tag then some (mergeFormat tag {}) else none)
          { b with writer := group.1 })
  else if tag == ascii "code" then
    if (textWithFormatting ({}, false) el).1.isEmpty &&
      !((simpleText el).isNone && emptyBlock children)
    then b
    else
      let item := b.writer.code page (headBox page res children) (codeText children) parent
        (headLabel children)
      let r := captions { b with writer := applyLayer item.1 item.2 children }
      { writer := r.2.foldl (fun w caption => w.linkCaption item.2 caption) r.1.writer
        lastCode := some item.2 }
  else singleRun page res parent b el

mutual
/-- The runs of an element; `skip` passes over its head, as `body_nodes` does.
mirrors src/mapping/doclang.cpp:286-304 -/
def inlineRuns (skip : Bool) (parent : BodyChild) (formatting : Option Formatting) (b : Builder) :
    List MarkupNode → Builder
  | [] => b
  | .text t :: rest =>
    if (trim t).isEmpty then inlineRuns skip parent formatting b rest
    else
      let r := b.writer.styledText page none (trim t) (some parent) .text
        (formatting.map formattingWire) []
      inlineRuns false parent formatting { b with writer := r.1 } rest
  | .element tag attrs children :: rest =>
    if skip && kHeadTags.contains tag then inlineRuns skip parent formatting b rest
    else if kFormatTags.contains tag then
      inlineRuns false parent formatting
        (inlineRuns false parent (some (mergeFormat tag (formatting.getD {}))) b children) rest
    else inlineRuns false parent formatting
      (dispatch (some parent) b (.element tag attrs children)) rest
/-- mirrors src/mapping/doclang.cpp:862-917 -/
def dispatch (parent : Option BodyChild) (b : Builder) : MarkupNode → Builder
  | .text _ => b
  | .element tag attrs children =>
    if tag == ascii "track" || tag == ascii "page_break" then b
    else if kTextLike.contains tag then
      textLikeWith page res
        (fun skip parent formatting b => inlineRuns skip parent formatting b children)
        (fun b => captionsOf b children) parent b tag attrs children
    else if tag == ascii "heading" then heading page res parent b (.element tag attrs children)
    else if [ascii "list", ascii "group", ascii "table", ascii "index",
      ascii "picture"].contains tag then
      handlers (.element tag attrs children) parent b
    else walkChildren parent b children
/-- mirrors src/mapping/doclang.cpp:852-860 -/
def walkChildren (parent : Option BodyChild) (b : Builder) : List MarkupNode → Builder
  | [] => b
  | .text _ :: rest => walkChildren parent b rest
  | .element tag attrs children :: rest =>
    if kSkip.contains tag then walkChildren parent b rest
    else walkChildren parent (dispatch parent b (.element tag attrs children)) rest
/-- The captions of a code element.
mirrors src/mapping/doclang.cpp:360-381 -/
def captionsOf (b : Builder) : List MarkupNode → Builder × List BodyChild
  | [] => (b, [])
  | .text _ :: rest => captionsOf b rest
  | .element tag attrs children :: rest =>
    let text := trim (getText (.element tag attrs children))
    if tag != ascii "caption" || text.isEmpty then captionsOf b rest
    else if (simpleText (.element tag attrs children)).isNone then
      let textsBefore := b.writer.doc.texts.length
      let groupsBefore := b.writer.doc.groups.length
      let host := openHost page res children .caption none b
      let runs := layerSubtree textsBefore groupsBefore children
        (inlineRuns true host.2.2 none host.1 children)
      let more := captionsOf runs rest
      (more.1, host.2.1 :: more.2)
    else
      let r := b.writer.styledText page (headBox page res children) text none .caption none []
      let more := captionsOf { b with writer := applyLayer r.1 r.2 children } rest
      (more.1, r.2 :: more.2)
end

/-- mirrors src/mapping/doclang.cpp:383-478 -/
def textLike (parent : Option BodyChild) (b : Builder) : MarkupNode → Builder
  | .text _ => b
  | .element tag attrs children =>
    textLikeWith page res
      (fun skip parent formatting b =>
        inlineRuns page res handlers skip parent formatting b children)
      (fun b => captionsOf page res handlers b children) parent b tag attrs children

end Write

end Doclang

end VlmConvert.L3

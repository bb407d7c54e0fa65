import VlmConvert.L3Document.DoctagsScan

/-!
# DocTags: closed elements

What a well-formed response is made of: top-level elements, each closed by
its own close tag. `TopElement.render` writes one, `emission` is what the
tokenizer should make of it.

After every close tag but one the tokenizer is back where it started. The
`</otsl>` of a bare `<otsl>` ends the OTSL body, not the element: the element
stays open, and takes the captions and OTSL bodies that come next.

Result: `scan_render`, the emissions of any sequence of closed elements.
-/
namespace VlmConvert.L3.Doctags

open Bytes L2

/-! ## Syntax -/

/-- `<loc_…>` and `<_…>`: markup a text or a caption may hold. -/
inductive Inline
  | loc (value : Bytes)
  | token (name : Bytes)
  deriving DecidableEq, Repr

/-- Character data with markup in it. -/
structure Content (μ : Type) where
  first : Bytes := []
  rest : List (μ × Bytes) := []
  deriving Repr

/-- What a picture, a chart or a table may hold. -/
inductive Part
  | inline (markup : Inline)
  | caption (content : Content Inline)
  | otsl (body : Bytes)
  | classification (tag : Bytes)
  deriving Repr

inductive TopElement
  | text (name : Bytes) (content : Content Inline)
  | container (name : Bytes) (content : Content Part)
  | otsl (body : Bytes)
  | group (token body : Bytes)
  deriving Repr

def openTag (name : Bytes) : Bytes := 0x3C :: name ++ [0x3E]

def closeTag (name : Bytes) : Bytes := 0x3C :: 0x2F :: name ++ [0x3E]

def Inline.tagName : Inline → Bytes
  | .loc value => ascii "loc_" ++ value
  | .token name => 0x5F :: name

def Inline.render (markup : Inline) : Bytes := openTag markup.tagName

def Content.render {μ : Type} (render : μ → Bytes) (content : Content μ) : Bytes :=
  content.first ++ content.rest.flatMap fun part => render part.1 ++ part.2

def Part.render : Part → Bytes
  | .inline markup => markup.render
  | .caption content => openTag (ascii "caption") ++ content.render Inline.render ++
      closeTag (ascii "caption")
  | .otsl body => openTag (ascii "otsl") ++ body ++ closeTag (ascii "otsl")
  | .classification tag => openTag tag

def TopElement.render : TopElement → Bytes
  | .text name content => openTag name ++ content.render Inline.render ++ closeTag name
  | .container name content => openTag name ++ content.render Part.render ++ closeTag name
  | .otsl body => openTag (ascii "otsl") ++ body ++ closeTag (ascii "otsl")
  | .group token body => openTag token ++ body ++ closeTag token

def renderAll (elements : List TopElement) : Bytes := elements.flatMap TopElement.render

/-! ## What an element comes to -/

def Element.addText (text : Bytes) (element : Element) : Element :=
  { element with text := element.text ++ text }

def Element.addCaptionText (text : Bytes) (element : Element) : Element :=
  { element with captionText := element.captionText ++ text }

def Inline.read : Inline → Element → Element
  | .loc value, element => { element with locs := element.locs ++ (stol value).toList }
  | .token name, element => element.addText (openTag (0x5F :: name))

def Inline.readCaption : Inline → Element → Element
  | .loc value, element =>
      { element with captionLocs := element.captionLocs ++ (stol value).toList }
  | .token name, element => element.addCaptionText (openTag (0x5F :: name))

def Content.read {μ : Type} (chars : Bytes → Element → Element) (markup : μ → Element → Element)
    (content : Content μ) (element : Element) : Element :=
  content.rest.foldl (fun element part => chars part.2 (markup part.1 element))
    (chars content.first element)

/-- A caption's content, on the element it belongs to. -/
def Content.readCaption (content : Content Inline) (element : Element) : Element :=
  content.read Element.addCaptionText Inline.readCaption { element with hasCaption := true }

def Part.read : Part → Element → Element
  | .inline markup, element => markup.read element
  | .caption content, element => content.readCaption element
  | .otsl body, element => { element with otsl := element.otsl ++ body }
  | .classification tag, element => { element with classTags := element.classTags ++ [tag] }

def TopElement.emission : TopElement → Emission
  | .text name content => .element (content.read Element.addText Inline.read { name := name })
  | .container name content => .element (content.read Element.addText Part.read { name := name })
  | .otsl body => .element { name := ascii "otsl", otsl := body }
  | .group token body => .container token (openTag token ++ body ++ closeTag token)

/-! ## Closed elements -/

/-- No '<' that could open a tag. -/
def charData : Bytes → Bool
  | [] => true
  | b :: text => (b != 0x3C || !opensTag (b :: text)) && charData text

def Inline.closed (markup : Inline) : Bool := !markup.tagName.contains 0x3E

def Content.closed {μ : Type} (closed : μ → Bool) (content : Content μ) : Bool :=
  charData content.first && content.rest.all fun part => closed part.1 && charData part.2

def isPicture (name : Bytes) : Bool := name == ascii "picture" || name == ascii "chart"

/-- Classification tags belong to pictures and charts. -/
def Part.closed (name : Bytes) : Part → Bool
  | .inline markup => markup.closed
  | .caption content => content.closed Inline.closed
  | .otsl body => (findSub (closeTag (ascii "otsl")) body).isNone
  | .classification tag => isPicture name && isClassificationTag tag

/-- The names of the text elements `emit_element` knows.
mirrors src/mapping/doctags.cpp:453-540 -/
def isTextTag (name : Bytes) : Bool :=
  (ascii "section_header_level_").isPrefixOf name || (ascii "subtitle-level_").isPrefixOf name ||
    [ascii "title", ascii "list_item", ascii "code", ascii "formula", ascii "page_header",
      ascii "page_footer", ascii "footnote", ascii "caption", ascii "checkbox_selected",
      ascii "checkbox_unselected", ascii "document_index", ascii "text",
      ascii "paragraph"].contains name

/-- A name that opens an element of its own. -/
def opensElement (name : Bytes) : Bool :=
  name.head?.any isAlpha && !name.contains 0x3E && !(ascii "loc_").isPrefixOf name &&
    name != ascii "doctag" && name != ascii "otsl" && !isGroupContainer name

/-- Closed by its own close tag; an unknown tag holds text. -/
def TopElement.closed : TopElement → Bool
  | .text name content => opensElement name && !isContainer name && content.closed Inline.closed &&
      (isTextTag name ||
        !(trim (content.read Element.addText Inline.read { name := name }).text).isEmpty)
  | .container name content => (isPicture name || name == ascii "table") &&
      content.closed (Part.closed name)
  | .otsl body => (findSub (closeTag (ascii "otsl")) body).isNone
  | .group token body => isGroupContainer token && (findSub (closeTag token) body).isNone

/-! ## Reading character data -/

namespace Scan

section Chars
variable (s : Scan)

@[simp] theorem addText_nil : s.addText [] = s := by
  unfold addText
  split
  · rfl
  · split <;> simp

@[simp] theorem addText_append (first second : Bytes) :
    (s.addText first).addText second = s.addText (first ++ second) := by
  obtain ⟨current, elementOpen, inOtsl, inCaption, pendingLocs⟩ := s
  cases elementOpen <;> cases inCaption <;> simp [addText]

@[simp] theorem addText_inOtsl (text : Bytes) : (s.addText text).inOtsl = s.inOtsl := by
  unfold addText
  split
  · rfl
  · split <;> rfl

/-- One byte of character data. -/
theorem scan_char (hs : s.inOtsl = false) {b : UInt8} {rest : Bytes}
    (hb : b = 0x3C → opensTag (b :: rest) = false) :
    s.scan (b :: rest) = (s.addText [b]).scan rest := by
  have hs' : (s.addText [b]).inOtsl = false := by rw [addText_inOtsl, hs]
  rw [s.scan_step (by simp)]
  by_cases hlt : b = 0x3C
  · subst hlt
    have hfind : findByte 0x3C (0x3C :: rest) = some ([], 0x3C :: rest) :=
      @findByte_append 0x3C [] rest (by simp)
    simp [step, hs, hfind, hb rfl]
  · have hfind := findByte_cons hlt rest
    cases rest with
    | nil =>
      have hnil : findByte 0x3C [] = none := rfl
      simp [step, hs, hfind, hnil]
    | cons c rest =>
      rw [(s.addText [b]).scan_step (by simp)]
      unfold step
      rw [hs, hs', hfind]
      cases findByte 0x3C (c :: rest) with
      | none => simp
      | some r => simp

/-- Character data in front of a tag. -/
theorem scan_chars {text : Bytes} (htext : charData text = true) (rest : Bytes) :
    ∀ s : Scan, s.inOtsl = false →
      s.scan (text ++ 0x3C :: rest) = (s.addText text).scan (0x3C :: rest) := by
  induction text with
  | nil => intro s _; simp
  | cons b text ih =>
    intro s hs
    simp only [charData, Bool.and_eq_true, Bool.or_eq_true, bne_iff_ne, Bool.not_eq_true'] at htext
    have hb : b = 0x3C → opensTag (b :: (text ++ 0x3C :: rest)) = false := by
      intro he
      rcases htext.1 with hne | hopen
      · exact absurd he hne
      · cases text with
        | nil => rfl
        | cons c text => exact hopen
    rw [List.cons_append, s.scan_char hs hb, ih htext.2 _ (by rw [addText_inOtsl, hs]),
      addText_append]
    rfl

end Chars

/-! ## Reading tags -/

/-- An element is open. -/
def opened (element : Element) : Scan := { current := element, elementOpen := true }

/-- A caption of the open element is open. -/
def captioned (element : Element) : Scan :=
  { current := element, elementOpen := true, inCaption := true }

/-- A name in angle brackets is one tag. -/
theorem scan_tag {s : Scan} (hs : s.inOtsl = false) {name : Bytes} (rest : Bytes)
    (hopen : (name.head?.any fun c => isAlpha c || c == 0x2F || c == 0x5F) = true)
    (hname : 0x3E ∉ name) :
    s.scan (openTag name ++ rest) = (s.tag name (openTag name ++ rest) rest).2.1 ++
      (s.tag name (openTag name ++ rest) rest).1.scan
        (s.tag name (openTag name ++ rest) rest).2.2 := by
  have htext : openTag name ++ rest = 0x3C :: (name ++ 0x3E :: rest) := by simp [openTag]
  have hlt : findByte 0x3C (openTag name ++ rest) = some ([], openTag name ++ rest) := by
    rw [htext]
    exact @findByte_append 0x3C [] _ (by simp)
  have hgt : findByte 0x3E (openTag name ++ rest) = some (0x3C :: name, 0x3E :: rest) := by
    rw [htext, ← List.cons_append]
    exact findByte_append (by simpa using hname)
  have hopens : opensTag (openTag name ++ rest) = true := by
    cases name with
    | nil => cases hopen
    | cons c name => exact hopen
  have hstep : s.step (openTag name ++ rest) = s.tag name (openTag name ++ rest) rest := by
    simp [step, hs, hlt, hgt, hopens]
  rw [s.scan_step (by rw [htext]; simp), hstep]

theorem closeTag_eq (name : Bytes) : closeTag name = openTag (0x2F :: name) := rfl

theorem scan_inline {s : Scan} (hs : s.inOtsl = false) {markup : Inline} (h : markup.closed = true)
    (rest : Bytes) :
    s.scan (markup.render ++ rest) = (match markup with
      | .loc value => s.addLoc (stol value)
      | .token name => s.addText (openTag (0x5F :: name))).scan rest := by
  have hname : 0x3E ∉ markup.tagName := by simpa [Inline.closed] using h
  cases markup with
  | loc value =>
    rw [Inline.render, scan_tag hs rest rfl hname]
    have htag : ∀ o, s.tag (ascii "loc_" ++ value) o rest = (s.addLoc (stol value), [], rest) :=
      fun _ => rfl
    rw [Inline.tagName, htag]
    rfl
  | token name =>
    rw [Inline.render, scan_tag hs rest rfl hname]
    have htag : ∀ o, s.tag (0x5F :: name) o rest =
        (s.addText (openTag (0x5F :: name)), [], rest) := fun _ => rfl
    rw [Inline.tagName, htag]
    rfl

/-! ## Reading content -/

section Content
variable {μ : Type} {render : μ → Bytes}

/-- Markup and what stands behind it starts a tag. -/
theorem parts_lt (hlt : ∀ m, (render m).head? = some 0x3C) (parts : List (μ × Bytes))
    (rest : Bytes) :
    ∃ tail, (parts.flatMap fun part => render part.1 ++ part.2) ++ 0x3C :: rest = 0x3C :: tail := by
  cases parts with
  | nil => exact ⟨rest, rfl⟩
  | cons part parts =>
    have hhead := hlt part.1
    cases hrender : render part.1 with
    | nil => rw [hrender] at hhead; cases hhead
    | cons c body =>
      rw [hrender] at hhead
      cases hhead
      exact ⟨_, by rw [List.flatMap_cons, hrender]; rfl⟩

variable {σ : Element → Scan} {P : Element → Prop} {chars : Bytes → Element → Element}
  {markup : μ → Element → Element} {closed : μ → Bool}

theorem scan_parts (hlt : ∀ m, (render m).head? = some 0x3C) (hotsl : ∀ e, (σ e).inOtsl = false)
    (hchars : ∀ e text, P e → (σ e).addText text = σ (chars text e) ∧ P (chars text e))
    (hmarkup : ∀ e m rest, P e → closed m = true →
      (σ e).scan (render m ++ rest) = (σ (markup m e)).scan rest ∧ P (markup m e))
    (rest : Bytes) {parts : List (μ × Bytes)}
    (h : (parts.all fun part => closed part.1 && charData part.2) = true) : ∀ e, P e →
      (σ e).scan ((parts.flatMap fun part => render part.1 ++ part.2) ++ 0x3C :: rest) =
        (σ (parts.foldl (fun e part => chars part.2 (markup part.1 e)) e)).scan (0x3C :: rest) ∧
      P (parts.foldl (fun e part => chars part.2 (markup part.1 e)) e) := by
  induction parts with
  | nil => intro e he; exact ⟨rfl, he⟩
  | cons part parts ih =>
    intro e he
    simp only [List.all_cons, Bool.and_eq_true] at h
    obtain ⟨⟨hclosed, hdata⟩, hparts⟩ := h
    obtain ⟨tail, htail⟩ := parts_lt hlt parts rest
    obtain ⟨hread, hP⟩ := hmarkup e part.1 (part.2 ++ 0x3C :: tail) he hclosed
    obtain ⟨hadd, hP'⟩ := hchars _ part.2 hP
    have hih := ih hparts _ hP'
    rw [htail] at hih
    refine ⟨?_, hih.2⟩
    rw [List.flatMap_cons, List.append_assoc, List.append_assoc, htail, hread,
      scan_chars hdata tail _ (hotsl _), hadd]
    exact hih.1

/-- Content is read part by part. -/
theorem scan_content (hlt : ∀ m, (render m).head? = some 0x3C) (hotsl : ∀ e, (σ e).inOtsl = false)
    (hchars : ∀ e text, P e → (σ e).addText text = σ (chars text e) ∧ P (chars text e))
    (hmarkup : ∀ e m rest, P e → closed m = true →
      (σ e).scan (render m ++ rest) = (σ (markup m e)).scan rest ∧ P (markup m e))
    {content : Content μ} (h : content.closed closed = true) (rest : Bytes) {e : Element}
    (he : P e) :
    (σ e).scan (content.render render ++ 0x3C :: rest) =
      (σ (content.read chars markup e)).scan (0x3C :: rest) ∧ P (content.read chars markup e) := by
  simp only [Content.closed, Bool.and_eq_true] at h
  obtain ⟨tail, htail⟩ := parts_lt hlt content.rest rest
  obtain ⟨hadd, hP⟩ := hchars e content.first he
  have hparts := scan_parts hlt hotsl hchars hmarkup rest h.2 _ hP
  refine ⟨?_, hparts.2⟩
  rw [Content.read, ← hparts.1, Content.render, List.append_assoc, htail,
    scan_chars h.1 tail _ (hotsl e), hadd]

end Content

theorem inline_lt (markup : Inline) : markup.render.head? = some 0x3C := rfl

/-- The content of a text element, or what stands between the parts of a
container. -/
theorem opened_inline (e : Element) {markup : Inline} (h : markup.closed = true) (rest : Bytes) :
    (opened e).scan (markup.render ++ rest) = (opened (markup.read e)).scan rest := by
  rw [scan_inline rfl h]
  cases markup <;> rfl

theorem opened_text (e : Element) {content : Content Inline}
    (h : content.closed Inline.closed = true)
    (rest : Bytes) : (opened e).scan (content.render Inline.render ++ 0x3C :: rest) =
      (opened (content.read Element.addText Inline.read e)).scan (0x3C :: rest) :=
  (scan_content (P := fun _ => True) inline_lt (fun _ => rfl) (fun _ _ _ => ⟨rfl, trivial⟩)
    (fun e _ rest _ h => ⟨opened_inline e h rest, trivial⟩) h rest trivial).1

theorem captioned_text (e : Element) {content : Content Inline}
    (h : content.closed Inline.closed = true)
    (rest : Bytes) : (captioned e).scan (content.render Inline.render ++ 0x3C :: rest) =
      (captioned (content.read Element.addCaptionText Inline.readCaption e)).scan
        (0x3C :: rest) := by
  refine (scan_content (P := fun _ => True) inline_lt (fun _ => rfl) (fun _ _ _ => ⟨rfl, trivial⟩)
    (fun e markup rest _ h => ⟨?_, trivial⟩) h rest trivial).1
  rw [scan_inline rfl h]
  cases markup <;> rfl

/-! ## Opening and closing -/

/-- Between two elements: nothing is open, or a bare `<otsl>`. -/
def idle : Option Element → Scan
  | none => {}
  | some table => opened table

section Tags
variable {name : Bytes}

theorem opensElement_head (h : opensElement name = true) :
    ∃ c tail, name = c :: tail ∧ isAlpha c = true := by
  simp only [opensElement, Bool.and_eq_true] at h
  cases name with
  | nil => cases h.1.1.1.1.1
  | cons c tail => exact ⟨c, tail, rfl, h.1.1.1.1.1⟩

theorem alpha_ne {c d : UInt8} (hc : isAlpha c = true) (hd : isAlpha d = false) :
    (c == d) = false := by
  rw [beq_eq_false_iff_ne]
  rintro rfl
  rw [hc] at hd
  cases hd

/-- A new element, behind an element that takes no part in it. -/
theorem scan_open {o : Option Element} (ho : ∀ table, o = some table → table.name = ascii "otsl")
    (h : opensElement name = true) (hcaption : o.isSome = true → name ≠ ascii "caption")
    (rest : Bytes) :
    (idle o).scan (openTag name ++ rest) =
      (idle o).flushed ++ (opened { name := name }).scan rest := by
  obtain ⟨c, tail, hname, hc⟩ := opensElement_head h
  simp only [opensElement, Bool.and_eq_true, Bool.not_eq_true', bne_iff_ne, List.contains_eq_mem,
    decide_eq_false_iff_not] at h
  obtain ⟨⟨⟨⟨⟨-, hgt⟩, hloc⟩, hdoctag⟩, hotsl⟩, hgroup⟩ := h
  have hslash : (name.head? == some 0x2F) = false := by rw [hname]; exact alpha_ne hc rfl
  have hunder : (name.head? == some 0x5F) = false := by rw [hname]; exact alpha_ne hc rfl
  have hclose : ∀ tail', (name == 0x2F :: tail') = false := by
    intro tail'
    rw [beq_eq_false_iff_ne]
    rintro rfl
    cases hslash
  have hopen : (name.head?.any fun c => isAlpha c || c == 0x2F || c == 0x5F) = true := by
    rw [hname]
    simp [hc]
  have htag : (idle o).tag name (openTag name ++ rest) rest =
      (opened { name := name }, (idle o).flushed, rest) := by
    have hdoc : (name == ascii "doctag" || name == ascii "/doctag") = false := by
      rw [Bool.or_eq_false_iff]
      exact ⟨beq_eq_false_iff_ne.2 hdoctag, hclose _⟩
    have hno : (name == ascii "otsl") = false := beq_eq_false_iff_ne.2 hotsl
    cases o with
    | none =>
      simp only [tag, hloc, hdoc, hunder, hno, hgroup, hslash, idle, Bool.and_false, Bool.false_and,
        Bool.false_eq_true, if_false]
      rfl
    | some table =>
      have hcap : (name == ascii "caption") = false := beq_eq_false_iff_ne.2 (hcaption rfl)
      have hpicture : (table.name == ascii "picture" || table.name == ascii "chart") = false := by
        rw [ho table rfl]
        rfl
      simp only [tag, hloc, hdoc, hunder, hno, hgroup, hslash, hcap, hclose, idle, opened, hpicture,
        Bool.and_false, Bool.false_and, Bool.false_eq_true, if_false]
      rfl
  rw [scan_tag (by cases o <;> rfl) rest hopen hgt, htag]

/-- An element's own close tag. -/
theorem scan_close {e : Element} (h : opensElement e.name = true) (rest : Bytes) :
    (opened e).scan (closeTag e.name ++ rest) = .element e :: ({} : Scan).scan rest := by
  simp only [opensElement, Bool.and_eq_true, Bool.not_eq_true', bne_iff_ne, List.contains_eq_mem,
    decide_eq_false_iff_not] at h
  obtain ⟨⟨⟨⟨⟨-, hgt⟩, -⟩, hdoctag⟩, -⟩, -⟩ := h
  have hdoc : (0x2F :: e.name == ascii "doctag" || 0x2F :: e.name == ascii "/doctag") = false := by
    rw [Bool.or_eq_false_iff]
    refine ⟨rfl, ?_⟩
    rw [beq_eq_false_iff_ne]
    intro he
    exact hdoctag (List.cons.inj he).2
  have hloc : (ascii "loc_").isPrefixOf (0x2F :: e.name) = false := rfl
  have hcap : (0x2F :: e.name == ascii "caption") = false := rfl
  have hotsl : (0x2F :: e.name == ascii "otsl") = false := rfl
  have hgroup : isGroupContainer (0x2F :: e.name) = false := rfl
  have htag : ∀ o, (opened e).tag (0x2F :: e.name) o rest = ({}, [.element e], rest) := by
    intro o
    by_cases hcont : isContainer e.name = true
    · simp only [tag, hdoc, hloc, hcap, hotsl, hgroup, opened, hcont, beq_self_eq_true,
        Bool.false_and, Bool.false_eq_true, if_false, Bool.and_self, if_true]
      rfl
    · have hpicture : (e.name == ascii "picture" || e.name == ascii "chart") = false := by
        rw [Bool.not_eq_true] at hcont
        simp only [isContainer, Bool.or_eq_false_iff] at hcont
        rw [hcont.1.1.1, hcont.1.1.2]
        rfl
      simp only [tag, hdoc, hloc, hcap, hotsl, hgroup, opened, hcont, hpicture, beq_self_eq_true,
        Bool.false_and, Bool.and_false, Bool.false_eq_true, if_false, Bool.and_self, if_true]
      rfl
  rw [closeTag_eq, scan_tag rfl rest rfl (by simpa using hgt), htag]
  rfl

/-- An OTSL body is taken whole. -/
theorem scan_otsl_body {s : Scan} (hs : s.inOtsl = true) {body : Bytes}
    (h : (findSub (closeTag (ascii "otsl")) body).isNone = true) (rest : Bytes) :
    s.scan (body ++ (closeTag (ascii "otsl") ++ rest)) = ({ s with
      inOtsl := false, current :=
        { s.current with otsl := s.current.otsl ++ body } } : Scan).scan rest := by
  have hfind : findSub (ascii "</otsl>") (body ++ (closeTag (ascii "otsl") ++ rest)) =
      some (body, closeTag (ascii "otsl") ++ rest) :=
    findSub_behind (c := 0x3C) (by decide) rest (Option.isNone_iff_eq_none.1 h)
  rw [s.scan_step (by simp [closeTag])]
  simp only [step, hs, if_true, hfind]
  rfl

/-- `<otsl>` inside an element, or behind a bare one. -/
theorem opened_otsl (e : Element) {body : Bytes}
    (h : (findSub (closeTag (ascii "otsl")) body).isNone = true) (rest : Bytes) :
    (opened e).scan (openTag (ascii "otsl") ++ (body ++ (closeTag (ascii "otsl") ++ rest))) =
      (opened { e with otsl := e.otsl ++ body }).scan rest := by
  have htag : ∀ o r, (opened e).tag (ascii "otsl") o r =
    ({ opened e with inOtsl := true }, [], r) :=
    fun _ _ => rfl
  rw [scan_tag rfl _ rfl (by decide), htag]
  exact scan_otsl_body rfl h rest

/-- A bare `<otsl>`: the element stays open. -/
theorem scan_otsl {body : Bytes} (h : (findSub (closeTag (ascii "otsl")) body).isNone = true)
    (rest : Bytes) :
    ({} : Scan).scan (openTag (ascii "otsl") ++ (body ++ (closeTag (ascii "otsl") ++ rest))) =
      (opened { name := ascii "otsl", otsl := body }).scan rest := by
  have htag : ∀ o r, ({} : Scan).tag (ascii "otsl") o r =
      ({ opened { name := ascii "otsl" } with inOtsl := true }, [], r) := fun _ _ => rfl
  rw [scan_tag rfl _ rfl (by decide), htag]
  exact scan_otsl_body rfl h rest

/-- `<caption>` inside a container. -/
theorem opened_caption {e : Element} (he : isContainer e.name = true) {content : Content Inline}
    (h : content.closed Inline.closed = true) (rest : Bytes) :
    (opened e).scan (openTag (ascii "caption") ++ (content.render Inline.render ++
      (closeTag (ascii "caption") ++ rest))) = (opened (content.readCaption e)).scan rest := by
  have hopen : ∀ o r, (opened e).tag (ascii "caption") o r =
      (captioned { e with hasCaption := true }, [], r) := by
    intro o r
    have h1 : (ascii "loc_").isPrefixOf (ascii "caption") = false := rfl
    have h2 : (ascii "caption" == ascii "doctag" || ascii "caption" == ascii "/doctag") =
      false := rfl
    have h3 : ((ascii "caption").head? == some 0x5F) = false := rfl
    simp only [tag, h1, h2, h3, opened, he, beq_self_eq_true, Bool.false_eq_true, if_false,
      Bool.and_self, if_true]
    rfl
  have hclose : ∀ e o r, (captioned e).tag (ascii "/caption") o r = (opened e, [], r) :=
    fun _ _ _ => rfl
  rw [scan_tag rfl _ rfl (by decide), hopen]
  have htext := captioned_text { e with hasCaption := true } h
    (0x2F :: ascii "caption" ++ [0x3E] ++ rest)
  refine htext.trans ?_
  rw [show (0x3C :: (0x2F :: ascii "caption" ++ [0x3E] ++ rest)) =
    openTag (ascii "/caption") ++ rest from rfl, scan_tag rfl _ rfl (by decide), hclose]
  rfl

/-- What a classification tag is not. -/
def plainTag (tag : Bytes) : Bool :=
  opensElement tag && tag != ascii "caption"

theorem plainTag_of_classification {tag : Bytes} (h : isClassificationTag tag = true) :
    plainTag tag = true := by
  obtain ⟨label, hmem, he⟩ := List.any_eq_true.1 h
  have hall : ∀ label ∈ kClassificationLabels, plainTag label.1 = true := by decide
  rw [← eq_of_beq he]
  exact hall label hmem

theorem opened_classification {e : Element} (he : isPicture e.name = true) {tag_ : Bytes}
    (h : isClassificationTag tag_ = true) (rest : Bytes) :
    (opened e).scan (openTag tag_ ++ rest) =
      (opened { e with classTags := e.classTags ++ [tag_] }).scan rest := by
  have hplain := plainTag_of_classification h
  simp only [plainTag, Bool.and_eq_true, bne_iff_ne] at hplain
  obtain ⟨hopens, hcaption⟩ := hplain
  obtain ⟨c, tail, hname, hc⟩ := opensElement_head hopens
  simp only [opensElement, Bool.and_eq_true, Bool.not_eq_true', bne_iff_ne, List.contains_eq_mem,
    decide_eq_false_iff_not] at hopens
  obtain ⟨⟨⟨⟨⟨-, hgt⟩, hloc⟩, hdoctag⟩, hotsl⟩, hgroup⟩ := hopens
  have hunder : (tag_.head? == some 0x5F) = false := by rw [hname]; exact alpha_ne hc rfl
  have hclose : ∀ tail', (tag_ == 0x2F :: tail') = false := by
    intro tail'
    rw [beq_eq_false_iff_ne, hname]
    rintro ⟨⟩
    cases hc
  have hdoc : (tag_ == ascii "doctag" || tag_ == ascii "/doctag") = false := by
    rw [Bool.or_eq_false_iff]
    exact ⟨beq_eq_false_iff_ne.2 hdoctag, hclose _⟩
  have hcap : (tag_ == ascii "caption") = false := beq_eq_false_iff_ne.2 hcaption
  have hno : (tag_ == ascii "otsl") = false := beq_eq_false_iff_ne.2 hotsl
  have hpicture : (e.name == ascii "picture" || e.name == ascii "chart") = true := he
  have htag : ∀ o, (opened e).tag tag_ o rest =
      (opened { e with classTags := e.classTags ++ [tag_] }, [], rest) := by
    intro o
    simp only [tag, hloc, hdoc, hunder, hcap, hno, hgroup, hclose, opened, hpicture, h,
      Bool.and_false, Bool.false_and, Bool.and_self, Bool.false_eq_true, if_false, if_true]
  rw [scan_tag rfl rest (by rw [hname]; simp [hc]) hgt, htag]
  rfl

theorem part_lt (part : Part) : part.render.head? = some 0x3C := by
  cases part <;> rfl

theorem inline_read_name (markup : Inline) (e : Element) : (markup.read e).name = e.name := by
  cases markup <;> rfl

theorem content_read_name {μ : Type} {chars : Bytes → Element → Element}
    {markup : μ → Element → Element}
    (hchars : ∀ text e, (chars text e).name = e.name) (hmarkup : ∀ m e, (markup m e).name = e.name)
    (content : Content μ) (e : Element) : (content.read chars markup e).name = e.name := by
  have hparts : ∀ (parts : List (μ × Bytes)) (e : Element),
      (parts.foldl (fun e part => chars part.2 (markup part.1 e)) e).name = e.name := by
    intro parts
    induction parts with
    | nil => intro e; rfl
    | cons part parts ih =>
      intro e
      rw [List.foldl_cons, ih, hchars, hmarkup]
  rw [Content.read, hparts, hchars]

theorem readCaption_name (content : Content Inline) (e : Element) :
    (content.readCaption e).name = e.name := by
  have hmarkup : ∀ (markup : Inline) (e : Element), (markup.readCaption e).name = e.name := by
    intro markup e
    cases markup <;> rfl
  have hchars : ∀ text (e : Element), (e.addCaptionText text).name = e.name := fun _ _ => rfl
  exact content_read_name hchars hmarkup content _

theorem part_read_name (part : Part) (e : Element) : (part.read e).name = e.name := by
  cases part with
  | inline markup => exact inline_read_name markup e
  | caption content => exact readCaption_name content e
  | otsl body => rfl
  | classification tag => rfl

/-- The parts of a picture, a chart or a table. -/
theorem opened_parts {name : Bytes} (hname : isContainer name = true) {e : Element}
    (he : e.name = name)
    {content : Content Part} (h : content.closed (Part.closed name) = true) (rest : Bytes) :
    (opened e).scan (content.render Part.render ++ 0x3C :: rest) =
      (opened (content.read Element.addText Part.read e)).scan (0x3C :: rest) := by
  have hchars : ∀ (e : Element) text, e.name = name →
      (opened e).addText text = opened (e.addText text) ∧ (e.addText text).name = name :=
    fun _ _ he => ⟨rfl, he⟩
  refine (scan_content part_lt (fun _ => rfl) hchars
    (fun e part rest he hpart => ⟨?_, ?_⟩) h rest he).1
  · cases part with
    | inline markup => exact opened_inline e hpart rest
    | caption content =>
      simp only [Part.render, List.append_assoc]
      exact opened_caption (by rw [he, hname]) hpart rest
    | otsl body =>
      simp only [Part.render, List.append_assoc]
      exact opened_otsl e hpart rest
    | classification tag_ =>
      simp only [Part.closed, Bool.and_eq_true] at hpart
      exact opened_classification (by rw [he]; exact hpart.1) hpart.2 rest
  · rw [part_read_name, he]

theorem flush_idle (o : Option Element) : (idle o).flush = {} := by
  cases o <;> rfl

/-- A group container is captured raw. -/
theorem scan_group {o : Option Element} {token body : Bytes}
    (htoken : isGroupContainer token = true)
    (h : (findSub (closeTag token) body).isNone = true) (rest : Bytes) :
    (idle o).scan (openTag token ++ (body ++ (closeTag token ++ rest))) = (idle o).flushed ++
      .container token (openTag token ++ body ++ closeTag token) :: ({} : Scan).scan rest := by
  have hall : 0x3C ∉ token ∧ 0x3E ∉ token ∧
      (token.head?.any fun c => isAlpha c || c == 0x2F || c == 0x5F) = true ∧
      (ascii "loc_").isPrefixOf token = false ∧
      (token == ascii "doctag" || token == ascii "/doctag") = false ∧
      (token.head? == some 0x5F) = false ∧ (token == ascii "caption") = false ∧
      (token == ascii "otsl") = false := by
    simp only [isGroupContainer, Bool.or_eq_true, beq_iff_eq] at htoken
    rcases htoken with ((rfl | rfl) | rfl) | rfl <;> decide
  obtain ⟨hlt, hgt, hopen, hloc, hdoc, hunder, hcap, hotsl⟩ := hall
  have hneedle : 0x3C ∉ 0x2F :: token ++ [0x3E] := by simp [hlt]
  have hfind : findSub (ascii "</" ++ token ++ ascii ">") (body ++ (closeTag token ++ rest)) =
      some (body, closeTag token ++ rest) :=
    findSub_behind hneedle rest (Option.isNone_iff_eq_none.1 h)
  have hcontainer : ∀ o', (idle o).container token o' (body ++ (closeTag token ++ rest)) = ({},
      (idle o).flushed ++ [.container token (openTag token ++ body ++ closeTag token)], rest) := by
    intro o'
    have hdrop : (closeTag token ++ rest).drop (ascii "</" ++ token ++ ascii ">").length = rest :=
      @List.drop_left _ (closeTag token) rest
    simp only [container, hfind, hdrop, flush_idle]
    rfl
  have htag : ∀ o', (idle o).tag token o' (body ++ (closeTag token ++ rest)) =
      (idle o).container token o' (body ++ (closeTag token ++ rest)) := by
    intro o'
    have hin : (idle o).inCaption = false := by cases o <;> rfl
    simp only [tag, hloc, hdoc, hunder, hin, hcap, hotsl, htoken, Bool.false_and,
      Bool.false_eq_true, if_false, if_true]
  rw [scan_tag (by cases o <;> rfl) _ hopen hgt, htag, hcontainer]
  simp

end Tags

end Scan

/-! ## Sequences of elements -/

def TopElement.isOtsl : TopElement → Bool
  | .otsl _ => true
  | _ => false

def TopElement.isCaption : TopElement → Bool
  | .text name _ => name == ascii "caption"
  | _ => false

/-- An open bare table takes the next OTSL body or caption. -/
def TopElement.joinTable (table : Element) : TopElement → Option Element
  | .otsl body => some { table with otsl := table.otsl ++ body }
  | .text name content => if name == ascii "caption" then some (content.readCaption table) else none
  | _ => none

/-- The emissions of closed elements, behind a bare table that is still open. -/
def emitted : Option Element → List TopElement → List Emission
  | none, [] => []
  | some table, [] => [.element table]
  | none, .otsl body :: elements => emitted (some { name := ascii "otsl", otsl := body }) elements
  | none, element :: elements => element.emission :: emitted none elements
  | some table, element :: elements =>
    match element.joinTable table with
    | some table => emitted (some table) elements
    | none => .element table :: element.emission :: emitted none elements

section Sequence

theorem joinTable_none {table : Element} {element : TopElement}
    (h : element.joinTable table = none) :
    element.isOtsl = false ∧ element.isCaption = false := by
  cases element with
  | text name content =>
    simp only [TopElement.joinTable, ite_eq_right_iff, reduceCtorEq, imp_false,
      Bool.not_eq_true] at h
    exact ⟨rfl, h⟩
  | container name content => exact ⟨rfl, rfl⟩
  | otsl body => cases h
  | group token body => exact ⟨rfl, rfl⟩

theorem joinTable_name {table table' : Element} {element : TopElement}
    (h : element.joinTable table = some table') : table'.name = table.name := by
  cases element with
  | text name content =>
    simp only [TopElement.joinTable, Option.ite_none_right_eq_some, Option.some.injEq] at h
    rw [← h.2, Scan.readCaption_name]
  | container name content => cases h
  | otsl body => cases h; rfl
  | group token body => cases h

theorem container_name {name : Bytes} (h : (isPicture name || name == ascii "table") = true) :
    opensElement name = true ∧ isContainer name = true ∧ name ≠ ascii "caption" := by
  simp only [isPicture, Bool.or_eq_true, beq_iff_eq] at h
  rcases h with (rfl | rfl) | rfl <;> decide

/-- An element that leaves nothing open. -/
theorem scan_element {o : Option Element} (ho : ∀ table, o = some table → table.name = ascii "otsl")
    {element : TopElement} (h : element.closed = true) (hotsl : element.isOtsl = false)
    (hcaption : o.isSome = true → element.isCaption = false) (rest : Bytes) :
    (Scan.idle o).scan (element.render ++ rest) =
      (Scan.idle o).flushed ++ element.emission :: ({} : Scan).scan rest := by
  cases element with
  | text name content =>
    simp only [TopElement.closed, Bool.and_eq_true] at h
    have hname : (content.read Element.addText Inline.read { name := name }).name = name :=
      Scan.content_read_name (by intro text e; rfl) Scan.inline_read_name content _
    have hread := Scan.opened_text { name := name } h.1.2 (0x2F :: name ++ [0x3E] ++ rest)
    have hclose := Scan.scan_close (by rw [hname]; exact h.1.1.1) rest
    rw [hname] at hclose
    simp only [TopElement.render, TopElement.emission, List.append_assoc]
    rw [Scan.scan_open ho h.1.1.1 (fun hs => beq_eq_false_iff_ne.1 (hcaption hs))]
    exact congrArg _ (hread.trans hclose)
  | container name content =>
    simp only [TopElement.closed, Bool.and_eq_true] at h
    obtain ⟨hopens, hcontainer, hnot⟩ := container_name h.1
    have hname : (content.read Element.addText Part.read { name := name }).name = name :=
      Scan.content_read_name (by intro text e; rfl) Scan.part_read_name content _
    have hread := Scan.opened_parts hcontainer (e := { name := name }) rfl h.2
      (0x2F :: name ++ [0x3E] ++ rest)
    have hclose := Scan.scan_close (by rw [hname]; exact hopens) rest
    rw [hname] at hclose
    simp only [TopElement.render, TopElement.emission, List.append_assoc]
    rw [Scan.scan_open ho hopens (fun _ => hnot)]
    exact congrArg _ (hread.trans hclose)
  | otsl body => cases hotsl
  | group token body =>
    simp only [TopElement.closed, Bool.and_eq_true] at h
    simp only [TopElement.render, TopElement.emission, List.append_assoc]
    rw [Scan.scan_group h.1 h.2]
    simp

/-- A bare table takes the element. -/
theorem scan_joined {table table' : Element} (htable : table.name = ascii "otsl")
    {element : TopElement}
    (h : element.closed = true) (hjoin : element.joinTable table = some table') (rest : Bytes) :
    (Scan.opened table).scan (element.render ++ rest) = (Scan.opened table').scan rest := by
  cases element with
  | text name content =>
    simp only [TopElement.closed, Bool.and_eq_true] at h
    simp only [TopElement.joinTable, Option.ite_none_right_eq_some, Option.some.injEq, beq_iff_eq]
      at hjoin
    obtain ⟨rfl, rfl⟩ := hjoin
    simp only [TopElement.render, List.append_assoc]
    exact Scan.opened_caption (by rw [htable]; rfl) h.1.2 rest
  | container name content => cases hjoin
  | otsl body =>
    cases hjoin
    simp only [TopElement.render, List.append_assoc]
    exact Scan.opened_otsl table h rest
  | group token body => cases hjoin

/-- **The emissions of closed elements.** -/
theorem scan_render (elements : List TopElement) : ∀ (o : Option Element),
    (∀ table, o = some table → table.name = ascii "otsl") → (∀ e ∈ elements, e.closed = true) →
      (Scan.idle o).scan (renderAll elements) = emitted o elements := by
  induction elements with
  | nil =>
    intro o _ _
    cases o <;> rfl
  | cons element elements ih =>
    intro o ho hclosed
    have hfirst := hclosed element (by simp)
    have hrest : ∀ e ∈ elements, e.closed = true := fun e he => hclosed e (by simp [he])
    have hidle := ih none (by simp) hrest
    rw [renderAll, List.flatMap_cons]
    cases o with
    | none =>
      cases hotsl : element.isOtsl with
      | true =>
        cases element with
        | otsl body =>
          simp only [TopElement.render, List.append_assoc, emitted]
          refine (Scan.scan_otsl hfirst _).trans (ih (some _) ?_ hrest)
          rintro table ⟨⟩
          rfl
        | _ => cases hotsl
      | false =>
        have hemit : emitted none (element :: elements) =
          element.emission :: emitted none elements := by
          cases element <;> first | rfl | cases hotsl
        rw [hemit, scan_element ho hfirst hotsl (by simp), ← hidle]
        rfl
    | some table =>
      simp only [emitted]
      cases hjoin : element.joinTable table with
      | some table' =>
        refine (scan_joined (ho table rfl) hfirst hjoin _).trans (ih (some table') ?_ hrest)
        rintro table'' ⟨⟩
        rw [joinTable_name hjoin, ho table rfl]
      | none =>
        obtain ⟨hotsl, hcaption⟩ := joinTable_none hjoin
        rw [scan_element ho hfirst hotsl (fun _ => hcaption)]
        exact congrArg (fun l => Emission.element table :: element.emission :: l) hidle

/-- Takes part in a bare table that stands right before it. -/
def TopElement.joins (element : TopElement) : Bool := element.isOtsl || element.isCaption

/-- No bare `<otsl>` has a caption or another bare `<otsl>` right behind it. -/
def Separate (elements : List TopElement) : Prop :=
  elements.IsChain fun first next => first.isOtsl = true → next.joins = false

/-- The first element, if there is one, does not join a table before it. -/
def StartsApart (elements : List TopElement) : Prop :=
  ∀ e, elements.head? = some e → e.joins = false

theorem separate_cons {element : TopElement} {elements : List TopElement} :
    Separate (element :: elements) ↔ (element.isOtsl = true → StartsApart elements) ∧
      Separate elements := by
  cases elements with
  | nil => simp [Separate, StartsApart]
  | cons next elements => simp [Separate, StartsApart, List.isChain_cons_cons]

theorem joinTable_eq_none {table : Element} {element : TopElement} (h : element.joins = false) :
    element.joinTable table = none := by
  simp only [TopElement.joins, Bool.or_eq_false_iff] at h
  cases element with
  | text name content =>
    have hname : (name == ascii "caption") = false := h.2
    simp [TopElement.joinTable, hname]
  | container name content => rfl
  | otsl body => cases h.1
  | group token body => rfl

/-- Separate elements are emitted one by one. -/
theorem emitted_separate {elements : List TopElement} : ∀ {o : Option Element}, Separate elements →
    (o.isSome = true → StartsApart elements) →
      emitted o elements = (o.map Emission.element).toList ++ elements.map TopElement.emission := by
  induction elements with
  | nil => intro o _ _; cases o <;> rfl
  | cons element elements ih =>
    intro o hsep hstart
    obtain ⟨hnext, hrest⟩ := separate_cons.1 hsep
    cases o with
    | none =>
      cases element with
      | otsl body =>
        simpa [emitted, TopElement.emission] using ih (o := some _) hrest (fun _ => hnext rfl)
      | _ => simpa [emitted] using ih (o := none) hrest (by simp)
    | some table =>
      have hjoin : element.joinTable table = none := joinTable_eq_none (hstart rfl element rfl)
      simpa [emitted, hjoin] using ih (o := none) hrest (by simp)

/-- Elements that are not separate are fewer emissions. -/
theorem length_emitted (elements : List TopElement) : ∀ o : Option Element,
    (emitted o elements).length ≤ o.toList.length + elements.length ∧
    ((emitted o elements).length = o.toList.length + elements.length →
      Separate elements ∧ (o.isSome = true → StartsApart elements)) := by
  induction elements with
  | nil =>
    intro o
    cases o <;> simp [emitted, Separate, StartsApart]
  | cons element elements ih =>
    intro o
    cases o with
    | none =>
      cases element with
      | otsl body =>
        have hih := ih (some { name := ascii "otsl", otsl := body })
        simp only [emitted, Option.toList_none, Option.toList_some, List.length_nil,
          List.length_cons, Option.isSome_some] at hih ⊢
        refine ⟨by omega, fun h => ?_⟩
        obtain ⟨hsep, hstart⟩ := hih.2 (by omega)
        exact ⟨separate_cons.2 ⟨fun _ => hstart trivial, hsep⟩, by simp⟩
      | _ =>
        have hih := ih none
        simp only [emitted, Option.toList_none, List.length_nil, List.length_cons] at hih ⊢
        refine ⟨by omega, fun h => ?_⟩
        have hsep := (hih.2 (by omega)).1
        exact ⟨separate_cons.2 ⟨fun h => (by cases h), hsep⟩, by simp⟩
    | some table =>
      simp only [emitted]
      cases hjoin : element.joinTable table with
      | some table' =>
        have hih := ih (some table')
        simp only [Option.toList_some, List.length_cons, List.length_nil] at hih ⊢
        exact ⟨by omega, fun h => by omega⟩
      | none =>
        have hih := ih none
        obtain ⟨hotsl, hcaption⟩ := joinTable_none hjoin
        simp only [Option.toList_some, Option.toList_none, List.length_cons, List.length_nil]
          at hih ⊢
        refine ⟨by omega, fun h => ?_⟩
        have hsep := (hih.2 (by omega)).1
        refine ⟨separate_cons.2 ⟨fun h => ?_, hsep⟩, fun _ e he => ?_⟩
        · rw [hotsl] at h
          cases h
        · cases he
          rw [TopElement.joins, hotsl, hcaption]
          rfl

end Sequence

end VlmConvert.L3.Doctags

import VlmConvert.L3Document.DoctagsIndependence

/-!
# DocTags: text around nested elements

Elements may nest: an opening tag closes the element that is open, so a nested
element splits its parent's text. Behind the nested element's close tag nothing
is open any more, and a close tag that closes nothing is passed over
(`src/mapping/doctags.cpp:911-937`): character data there belongs to no
element.

Results:
* `scan_nested`: the emissions of nested, closed elements.
* `doctags_keeps_text`: no text is lost exactly when nothing but whitespace
  follows a nested element inside its parent.
-/
namespace VlmConvert.L3.Doctags

open Bytes L2

/-! ## Nested elements -/

/-- Character data, and elements in it. -/
inductive Nested
  | chars (text : Bytes)
  | child (before name : Bytes) (inside behind : Nested)
  deriving Repr

namespace Nested

def render : Nested → Bytes
  | chars text => text
  | child before name inside behind =>
    before ++ (openTag name ++ (inside.render ++ (closeTag name ++ behind.render)))

/-- All character data, in order. -/
def text : Nested → Bytes
  | chars text => text
  | child before _ inside behind => before ++ (inside.text ++ behind.text)

/-- The character data inside the outermost elements. -/
def innerText : Nested → Bytes
  | chars _ => []
  | child _ _ inside behind => inside.text ++ behind.innerText

/-- A name that opens a text: no picture, table or code, no group and no
location. -/
def textName (name : Bytes) : Bool :=
  opensElement name && !isContainer name && name != ascii "code"

def closed : Nested → Bool
  | chars text => !text.contains 0x3C
  | child before name inside behind =>
    !before.contains 0x3C && textName name && inside.closed && behind.closed

/-- The pieces of character data that follow a nested element inside its
parent; `behind` is whether one has come before. -/
def later (behind : Bool) : Nested → List Bytes
  | chars text => if behind then [text] else []
  | child before _ inside rest =>
    (if behind then [before] else []) ++ (inside.later false ++ rest.later true)

/-- Those pieces, inside the outermost elements. -/
def innerLater : Nested → List Bytes
  | chars _ => []
  | child _ _ inside behind => inside.later false ++ behind.innerLater

/-! ## Their emissions -/

mutual
/-- What an open element comes to, and the elements inside it. -/
def elements (element : Element) : Nested → List Element
  | chars text => [element.addText text]
  | child before name inside behind =>
    element.addText before :: (inside.elements { name := name } ++ behind.outer)
/-- The elements where none is open. -/
def outer : Nested → List Element
  | chars _ => []
  | child _ name inside behind => inside.elements { name := name } ++ behind.outer
end

end Nested

namespace Scan

/-- A tag in character data closes the element that is open. -/
theorem scan_open_in {e : Element} (he : isContainer e.name = false) {name : Bytes}
    (h : opensElement name = true) (rest : Bytes) :
    (opened e).scan (openTag name ++ rest) = .element e :: (opened { name := name }).scan rest := by
  obtain ⟨c, tail, hname, hc⟩ := opensElement_head h
  simp only [opensElement, Bool.and_eq_true, Bool.not_eq_true', bne_iff_ne, List.contains_eq_mem,
    decide_eq_false_iff_not] at h
  obtain ⟨⟨⟨⟨⟨-, hgt⟩, hloc⟩, hdoctag⟩, hotsl⟩, hgroup⟩ := h
  have hslash : (name.head? == some 0x2F) = false := by rw [hname]; exact alpha_ne hc rfl
  have hunder : (name.head? == some 0x5F) = false := by rw [hname]; exact alpha_ne hc rfl
  have hopen : (name.head?.any fun c => isAlpha c || c == 0x2F || c == 0x5F) = true := by
    rw [hname]
    simp [hc]
  have hdoc : (name == ascii "doctag" || name == ascii "/doctag") = false := by
    rw [Bool.or_eq_false_iff]
    refine ⟨beq_eq_false_iff_ne.2 hdoctag, ?_⟩
    rw [beq_eq_false_iff_ne]
    rintro rfl
    cases hslash
  have hno : (name == ascii "otsl") = false := beq_eq_false_iff_ne.2 hotsl
  have hpicture : (e.name == ascii "picture" || e.name == ascii "chart") = false := by
    simp only [isContainer, Bool.or_eq_false_iff] at he
    rw [he.1.1.1, he.1.1.2]
    rfl
  have htag : (opened e).tag name (openTag name ++ rest) rest =
      (opened { name := name }, [.element e], rest) := by
    simp only [tag, hloc, hdoc, hunder, hno, hgroup, hslash, opened, he, hpicture, Bool.and_false,
      Bool.false_and, Bool.false_eq_true, if_false]
    rfl
  rw [scan_tag rfl rest hopen hgt, htag]
  rfl

/-- A close tag where nothing is open is passed over. -/
theorem scan_stray {name : Bytes} (h : opensElement name = true) (rest : Bytes) :
    ({} : Scan).scan (closeTag name ++ rest) = ({} : Scan).scan rest := by
  simp only [opensElement, Bool.and_eq_true, Bool.not_eq_true', bne_iff_ne, List.contains_eq_mem,
    decide_eq_false_iff_not] at h
  obtain ⟨⟨⟨⟨⟨-, hgt⟩, -⟩, hdoctag⟩, -⟩, -⟩ := h
  have hdoc : (0x2F :: name == ascii "doctag" || 0x2F :: name == ascii "/doctag") = false := by
    rw [Bool.or_eq_false_iff]
    refine ⟨rfl, ?_⟩
    rw [beq_eq_false_iff_ne]
    intro he
    exact hdoctag (List.cons.inj he).2
  have htag : ∀ o, ({} : Scan).tag (0x2F :: name) o rest = ({}, [], rest) := by
    intro o
    simp only [tag, hdoc, Bool.false_eq_true, if_false]
    rfl
  rw [closeTag_eq, scan_tag rfl rest rfl (by simpa using hgt), htag]
  rfl

theorem charData_of_notMem : ∀ {text : Bytes}, 0x3C ∉ text → charData text = true := by
  intro text
  induction text with
  | nil => intro _; rfl
  | cons b text ih =>
    intro h
    simp only [List.mem_cons, not_or] at h
    have hb : (b != 0x3C) = true := bne_iff_ne.2 (Ne.symm h.1)
    simp only [charData, hb, Bool.true_or, Bool.true_and]
    exact ih h.2

/-- Where nothing is open, character data is lost. -/
theorem scan_outside {text : Bytes} (h : 0x3C ∉ text) : ({} : Scan).scan text = [] := by
  cases text with
  | nil => rfl
  | cons b text =>
    have hstep : ({} : Scan).step (b :: text) = ({}, [], []) := by
      simp only [step, Bool.false_eq_true, if_false, findByte_none h]
      rfl
    rw [scan_step _ (by simp), hstep]
    rfl

/-- **Nested elements.** Inside an open element up to its close tag, and where
nothing is open. -/
theorem scan_nested (m : Nested) : m.closed = true →
    (∀ (e : Element) (rest : Bytes), opensElement e.name = true → isContainer e.name = false →
      (opened e).scan (m.render ++ (closeTag e.name ++ rest)) =
        (m.elements e).map .element ++ ({} : Scan).scan rest) ∧
    (∀ (name rest : Bytes), opensElement name = true →
      ({} : Scan).scan (m.render ++ (closeTag name ++ rest)) =
        m.outer.map .element ++ ({} : Scan).scan rest) ∧
    ({} : Scan).scan m.render = m.outer.map .element := by
  induction m with
  | chars text =>
    intro h
    have hlt : 0x3C ∉ text := by simpa [Nested.closed] using h
    have hdata := charData_of_notMem hlt
    refine ⟨?_, ?_, ?_⟩
    · intro e rest hname _
      exact (scan_chars hdata _ (opened e) rfl).trans (@scan_close (e.addText text) hname rest)
    · intro name rest hname
      exact (scan_chars hdata _ {} rfl).trans (scan_stray hname rest)
    · exact scan_outside hlt
  | child before name inside behind ihInside ihBehind =>
    intro h
    simp only [Nested.closed, Nested.textName, Bool.and_eq_true, Bool.not_eq_true',
      List.contains_eq_mem, decide_eq_false_iff_not] at h
    obtain ⟨⟨⟨hlt, ⟨hname, hcontainer⟩, -⟩, hinside⟩, hbehind⟩ := h
    have hdata := charData_of_notMem hlt
    obtain ⟨hin, -, -⟩ := ihInside hinside
    obtain ⟨-, hstray, hend⟩ := ihBehind hbehind
    have hopen : ∀ tail, ({} : Scan).scan (openTag name ++ tail) =
      (opened { name := name }).scan tail :=
      fun tail => @scan_open name none (by simp) hname (by simp) tail
    refine ⟨?_, ?_, ?_⟩
    · intro e rest hename hecontainer
      simp only [Nested.render, List.append_assoc, Nested.elements, List.map_cons, List.map_append,
        List.cons_append]
      refine (scan_chars hdata _ (opened e) rfl).trans ?_
      refine (@scan_open_in (e.addText before) hecontainer name hname _).trans ?_
      rw [hin { name := name } _ hname hcontainer, hstray e.name rest hename]
    · intro name' rest hname'
      simp only [Nested.render, List.append_assoc, Nested.outer, List.map_append]
      refine (scan_chars hdata _ {} rfl).trans ?_
      refine (hopen _).trans ?_
      rw [hin { name := name } _ hname hcontainer, hstray name' rest hname']
    · simp only [Nested.render, Nested.outer, List.map_append]
      refine (scan_chars hdata _ {} rfl).trans ?_
      refine (hopen _).trans ?_
      rw [hin { name := name } _ hname hcontainer, hend]

end Scan

/-! ## Their texts -/

/-- The texts of the items a response comes to, in the order they were made. -/
def mappedText : Except Bytes (Document × Option (List PageWarning)) → Bytes
  | .ok (doc, _) => doc.texts.flatMap itemText
  | .error _ => []

section Texts
variable (page : PageContext) (raster : PageRaster) (byteSizeLong : TableCell → Nat)

theorem textItem_text {tag otsl : Bytes} (hcode : (tag == ascii "code") = false)
    {prov : ProvenanceItem}
    {text : Bytes} :
    ∀ item, textItem page tag otsl prov text = some item → itemText item = text := by
  unfold textItem
  simp only [hcode, Bool.false_eq_true, if_false]
  iterate 13 refine forall_ite_some (P := fun item : BaseTextItem => itemText item = text) rfl ?_
  intro item h
  split at h
  · cases h
  · cases h
    rfl

/-- The page holds `shown`, and an item for each emission that made one. -/
structure Shows (s : MapState) (shown : Bytes) : Prop where
  text : visible (s.doc.texts.flatMap itemText) = shown
  count : s.doc.texts.length = s.items

/-- A text element shows its text. -/
theorem Shows.emit {s : MapState} {shown : Bytes} (h : Shows s shown) {e : Element}
    (he : Nested.textName e.name = true) :
    Shows (emit page raster byteSizeLong s (.element e)) (shown ++ visible e.text) := by
  simp only [Nested.textName, Bool.and_eq_true, Bool.not_eq_true', bne_iff_ne] at he
  obtain ⟨⟨-, hcontainer⟩, hcode⟩ := he
  simp only [isContainer, Bool.or_eq_false_iff] at hcontainer
  obtain ⟨⟨⟨hpicture, hchart⟩, htable⟩, hotsl⟩ := hcontainer
  simp only [Doctags.emit, emitElement, hpicture, hchart, htable, hotsl, Bool.or_self,
    Bool.false_eq_true, if_false]
  split
  · rename_i item hitem
    have htext := textItem_text page (beq_eq_false_iff_ne.2 hcode) item hitem
    refine ⟨?_, ?_⟩
    · simp only [EmitState.addText, Document.addTexts, List.flatMap_append, visible_append, h.text,
        List.flatMap_cons, List.flatMap_nil, List.append_nil, htext, visible_trim]
    · simp [EmitState.addText, Document.addTexts, h.count]
  · rename_i hnone
    have hempty := (textItem_none page hnone).2
    have hblank : visible e.text = [] := by
      rw [← visible_trim, List.isEmpty_iff.1 hempty]
      rfl
    rw [hblank, List.append_nil]
    exact ⟨h.text, h.count⟩

theorem Shows.emitAll (elements : List Element) : ∀ {s : MapState} {shown : Bytes}, Shows s shown →
    (∀ e ∈ elements, Nested.textName e.name = true) →
    Shows (emitAll page raster byteSizeLong s (elements.map .element))
      (shown ++ visible (elements.flatMap Element.text)) := by
  induction elements with
  | nil =>
    intro s shown h _
    rw [List.flatMap_nil, show visible [] = [] from rfl, List.append_nil]
    exact h
  | cons e elements ih =>
    intro s shown h hnames
    have hrest := ih (h.emit page raster byteSizeLong (hnames e List.mem_cons_self))
      fun e' he' => hnames e' (List.mem_cons_of_mem _ he')
    rw [List.append_assoc] at hrest
    simpa [Doctags.emitAll] using hrest

theorem finalize_texts (doc : Document) (order : List BodyChild) :
    (finalizeDocument doc page order).texts.flatMap itemText = doc.texts.flatMap itemText := by
  have hstamp : ∀ (doc : Document) (child : BodyChild) (parent : Bytes),
      (stampItem doc child parent).texts.flatMap itemText = doc.texts.flatMap itemText := by
    intro doc child parent
    obtain ⟨kind, i⟩ := child
    cases kind with
    | text => exact flatMap_modify _ _ _ _ fun item => by cases item <;> rfl
    | _ => rfl
  have hfold : ∀ (order : List BodyChild) (doc : Document),
      (stampOrder order doc).texts.flatMap itemText = doc.texts.flatMap itemText := by
    intro order
    induction order with
    | nil => intro doc; rfl
    | cons child order ih =>
      intro doc
      exact (ih _).trans (hstamp doc child bodyRef)
  exact hfold order (startBody doc page)

end Texts

/-! ## What is kept -/

namespace Nested

theorem elements_names (m : Nested) : m.closed = true →
    (∀ e : Element, textName e.name = true → ∀ e' ∈ m.elements e, textName e'.name = true) ∧
      ∀ e' ∈ m.outer, textName e'.name = true := by
  induction m with
  | chars text =>
    intro _
    refine ⟨?_, by simp [outer]⟩
    intro e he e' he'
    rw [elements, List.mem_singleton] at he'
    rw [he']
    exact he
  | child before name inside behind ihInside ihBehind =>
    intro h
    simp only [closed, Bool.and_eq_true] at h
    obtain ⟨⟨⟨-, hname⟩, hinside⟩, hbehind⟩ := h
    have hin := (ihInside hinside).1 { name := name } hname
    have hout := (ihBehind hbehind).2
    have hrest : ∀ e' ∈ inside.elements { name := name } ++ behind.outer,
      textName e'.name = true := by
      intro e' he'
      rcases List.mem_append.1 he' with he' | he'
      · exact hin e' he'
      · exact hout e' he'
    refine ⟨?_, hrest⟩
    intro e he e' he'
    rw [elements] at he'
    rcases List.mem_cons.1 he' with rfl | he'
    · exact he
    · exact hrest e' he'

/-- Kept and lost text together are all of it. -/
theorem length_kept (m : Nested) :
    (∀ e : Element, (visible ((m.elements e).flatMap Element.text)).length +
      (visible (m.later false).flatten).length = (visible (e.text ++ m.text)).length) ∧
    (visible (m.outer.flatMap Element.text)).length + (visible (m.later true).flatten).length =
      (visible m.text).length := by
  induction m with
  | chars text =>
    refine ⟨?_, ?_⟩
    · intro e
      simp [elements, later, Element.addText, Nested.text, visible]
    · simp [outer, later, Nested.text, visible]
  | child before name inside behind ihInside ihBehind =>
    have hin := ihInside.1 { name := name }
    have hout := ihBehind.2
    simp only [List.nil_append] at hin
    refine ⟨?_, ?_⟩
    · intro e
      simp only [elements, later, Nested.text, Element.addText, List.flatMap_cons,
        List.flatMap_append,
        List.flatten_append, visible_append, List.length_append, Bool.false_eq_true, if_false,
        List.nil_append] at hin hout ⊢
      omega
    · simp only [outer, later, Nested.text, List.flatMap_append, List.flatten_append,
        visible_append,
        List.length_append, if_true, List.flatten_cons, List.flatten_nil,
          List.append_nil] at hin hout ⊢
      omega

theorem visible_flatten_nil {pieces : List Bytes} :
    visible pieces.flatten = [] ↔ ∀ t ∈ pieces, t.all isSpace = true := by
  induction pieces with
  | nil => simp [visible]
  | cons t pieces ih =>
    rw [List.flatten_cons, visible_append, List.append_eq_nil_iff, ih, visible_eq_nil]
    simp

/-- Where only whitespace is lost, the kept text is the whole text. -/
theorem kept_eq (m : Nested) :
    (∀ e : Element, visible (m.later false).flatten = [] →
      visible ((m.elements e).flatMap Element.text) = visible (e.text ++ m.text)) ∧
    (visible (m.later true).flatten = [] →
      visible (m.outer.flatMap Element.text) = visible m.text) := by
  induction m with
  | chars text =>
    refine ⟨?_, ?_⟩
    · intro e _
      simp [elements, Element.addText, Nested.text]
    · intro h
      simp only [later, if_true, List.flatten_cons, List.flatten_nil, List.append_nil] at h
      simp only [outer, Nested.text, h, List.flatMap_nil]
      rfl
  | child before name inside behind ihInside ihBehind =>
    have hin := ihInside.1 { name := name }
    have hout := ihBehind.2
    simp only [List.nil_append] at hin
    refine ⟨?_, ?_⟩
    · intro e h
      simp only [later, Bool.false_eq_true, if_false, List.nil_append, List.flatten_append,
        visible_append, List.append_eq_nil_iff] at h
      simp only [elements, Nested.text, Element.addText, List.flatMap_cons, List.flatMap_append,
        visible_append, hin h.1, hout h.2, List.append_assoc]
    · intro h
      simp only [later, if_true, List.flatten_append, List.flatten_cons, List.flatten_nil,
        List.append_nil, visible_append, List.append_eq_nil_iff] at h
      simp only [outer, Nested.text, List.flatMap_append, visible_append, hin h.2.1,
        hout h.2.2, h.1, List.nil_append]

/-- **No text is lost** exactly when nothing visible follows a nested element
inside its parent. -/
theorem outer_text (m : Nested) :
    visible (m.outer.flatMap Element.text) = visible m.innerText ↔
      ∀ t ∈ m.innerLater, t.all isSpace = true := by
  have hlength : ∀ m : Nested, (visible (m.outer.flatMap Element.text)).length +
      (visible m.innerLater.flatten).length = (visible m.innerText).length := by
    intro m
    induction m with
    | chars text => rfl
    | child before name inside behind _ ih =>
      have hin := inside.length_kept.1 { name := name }
      simp only [List.nil_append] at hin
      simp only [outer, innerLater, innerText, List.flatMap_append, List.flatten_append,
        visible_append, List.length_append]
      omega
  have hkept : ∀ m : Nested, visible m.innerLater.flatten = [] →
      visible (m.outer.flatMap Element.text) = visible m.innerText := by
    intro m
    induction m with
    | chars text => intro _; rfl
    | child before name inside behind _ ih =>
      intro h
      simp only [innerLater, List.flatten_append, visible_append, List.append_eq_nil_iff] at h
      have hin := inside.kept_eq.1 { name := name } h.1
      simp only [List.nil_append] at hin
      simp only [outer, innerText, List.flatMap_append, visible_append, hin, ih h.2]
  rw [← visible_flatten_nil]
  refine ⟨?_, hkept m⟩
  intro h
  have := hlength m
  rw [h] at this
  exact List.eq_nil_of_length_eq_zero (by omega)

end Nested

/-! ## The mapper -/

section Map
variable (page : PageContext) (raster : PageRaster) (byteSizeLong : TableCell → Nat)
  (warnings : Option (List PageWarning))

theorem mappedText_nested {m : Nested} (h : m.closed = true) :
    visible (mappedText (mapDoctags page raster byteSizeLong warnings m.render)) =
      visible (m.outer.flatMap Element.text) := by
  have hscan : Scan.emissions m.render = m.outer.map .element := (Scan.scan_nested m h).2.2
  have hshows :
    Shows (emitAll page raster byteSizeLong { warnings := warnings } (m.outer.map .element))
      ([] ++ visible (m.outer.flatMap Element.text)) :=
    Shows.emitAll page raster byteSizeLong m.outer ⟨rfl, rfl⟩ (m.elements_names h).2
  rw [List.nil_append] at hshows
  unfold mapDoctags
  split
  · rename_i hlt
    cases m with
    | chars text => rfl
    | child before name inside behind => exact absurd (by simp [Nested.render, openTag]) hlt
  · rw [hscan]
    dsimp only
    split
    · rename_i hitems
      rw [← hshows.text, List.eq_nil_of_length_eq_zero (hshows.count.trans hitems)]
      rfl
    · rw [← hshows.text]
      exact congrArg visible (finalize_texts page _ _)

/-- **DocTags keeps the text of nested elements** exactly when nothing but
whitespace follows a nested element inside its parent. -/
theorem doctags_keeps_text {m : Nested} (h : m.closed = true) :
    visible (mappedText (mapDoctags page raster byteSizeLong warnings m.render)) =
      visible m.innerText ↔
      ∀ t ∈ m.innerLater, t.all isSpace = true := by
  rw [mappedText_nested page raster byteSizeLong warnings h, m.outer_text]

end Map

/-- A footnote at the end of a text splits it without a loss. -/
theorem doctags_keeps_footnote :
    visible (mappedText (mapDoctags samplePage sampleRaster (fun cell => cell.text.length + 20) none
      (ascii "<text>a <footnote>b</footnote></text>"))) = ascii "ab" := by
  have hkeeps :=
    (doctags_keeps_text samplePage sampleRaster (fun cell => cell.text.length + 20) none
    (m := .child [] (ascii "text")
    (.child (ascii "a ") (ascii "footnote") (.chars (ascii "b")) (.chars []))
      (.chars [])) (by decide)).2 (by decide)
  exact hkeeps

/-- What stands behind the footnote is lost, and the page maps. -/
theorem doctags_drops_tail :
    ¬ ∀ (page : PageContext) (raster : PageRaster) (byteSizeLong : TableCell → Nat)
      (warnings : Option (List PageWarning)) (m : Nested), m.closed = true →
      visible (mappedText (mapDoctags page raster byteSizeLong warnings m.render)) =
        visible m.innerText := by
  intro h
  have hdrop := h samplePage sampleRaster (fun cell => cell.text.length + 20) none
    (.child [] (ascii "text")
      (.child (ascii "a") (ascii "footnote") (.chars (ascii "b")) (.chars (ascii "c")))
      (.chars [])) (by decide)
  revert hdrop
  decide

end VlmConvert.L3.Doctags

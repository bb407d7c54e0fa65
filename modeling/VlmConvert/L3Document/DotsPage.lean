import VlmConvert.L3Document.Dots
import VlmConvert.L3Document.InlineFragment

/-!
# dots.ocr pages

`map_dots_json` of `src/mapping/dots.cpp`: the elements of the array are written
one after the other, each at its box on the Qwen2-VL input grid, and captions
are linked to their neighbours behind the last one. An element without four
finite coordinates is passed by.

`nlohmann::json` is a parameter: the value of a text, the bytes of a string and
the `double` of a number. Of members with one key the last counts.

Result: `sound_mapDotsJson`.
-/
namespace VlmConvert.L3.Dots

open Bytes L1 L2 Doclang Chandra Interruptible

/-! ## Values -/

/-- What `nlohmann::json` reads. -/
structure JsonReader where
  parse : Bytes → Option Json
  string : Bytes → Bytes
  double : Bytes → Float

namespace JsonReader
variable (json : JsonReader)

def member (key : Bytes) : Json → Option Json
  | .obj members => (members.reverse.find? fun m => json.string m.1 == key).map Prod.snd
  | _ => none

/-- A string member, empty without one. -/
def text (key : Bytes) (element : Json) : Bytes :=
  match json.member key element with
  | some (.str body) => json.string body
  | _ => []

end JsonReader

section Elements
variable (env : Env) (json : JsonReader)

/-- mirrors src/mapping/dots.cpp:46-69 -/
def pythonFloat (value : Json) : Option Float :=
  match value with
  | .bool b => some (if b then 1 else 0)
  | .num lexeme => some (json.double lexeme)
  | .str body =>
    let text := trim (json.string body)
    let text := if text.head? == some 0x2B then text.drop 1 else text
    if text.isEmpty then none
    else
      match env.fromChars text with
      | some (number, []) => some number
      | _ => none
  | _ => none

/-- A full match of a fenced block: the hint and the code.
mirrors src/mapping/dots.cpp:73-105 -/
def fencedCode (text : Bytes) : Option (Bytes × Bytes) :=
  if !(ascii "```").isPrefixOf text then none
  else
    let inHint := fun c : UInt8 => c != 0x60 && c != 0x0D && c != 0x0A
    let hint := (text.drop 3).takeWhile inHint
    let rest := (text.drop 3).dropWhile inHint
    let rest := if rest.head? == some 0x0D then rest.drop 1 else rest
    if rest.head? != some 0x0A then none
    else
      let shown := (rest.drop 1).rdropWhile fun c => c == 0x20 || c == 0x09
      if !(ascii "```").isSuffixOf shown then none
      else
        let inner := shown.rdrop 3
        some (trim hint, if [0x0D, 0x0A].isSuffixOf inner then inner.rdrop 2
          else if [0x0A].isSuffixOf inner then inner.rdrop 1 else inner)

/-- mirrors src/mapping/dots.cpp:107-126 -/
def categoryLabel (category : Bytes) : Option DocItemLabel :=
  [(ascii "Text", DocItemLabel.text), (ascii "Title", .title),
    (ascii "Section-header", .sectionHeader),
    (ascii "Table", .table), (ascii "Picture", .picture), (ascii "Caption", .caption),
    (ascii "Footnote", .footnote), (ascii "Page-header", .pageHeader),
      (ascii "Page-footer", .pageFooter),
    (ascii "List-item", .listItem), (ascii "Formula", .formula)].lookup category

/-- `std::nearbyint`: to the nearest integer, halves to the even one. -/
def nearbyint (x : Float) : Float :=
  let low := x.floor
  if x - low < 0.5 then low
  else if 0.5 < x - low then low + 1
  else if (low / 2).floor * 2 == low then low
  else low + 1

def maxFloat (a b : Float) : Float := if a < b then b else a

/-- mirrors src/mapping/layout.cpp:457-479 -/
def qwen2vlImageSize (width height : Float) : Float × Float :=
  let factor : Float := 28
  let minPixels : Float := 200704
  let maxPixels : Float := 2500000
  let mw := width.floor
  let mh := height.floor
  if mw ≤ 0 ∨ mh ≤ 0 then (width, height)
  else
    let hBar := nearbyint (mh / factor) * factor
    let wBar := nearbyint (mw / factor) * factor
    if maxPixels < hBar * wBar then
      let beta := ((mh * mw) / maxPixels).sqrt
      (maxFloat factor ((mw / beta / factor).floor * factor),
        maxFloat factor ((mh / beta / factor).floor * factor))
    else if hBar * wBar < minPixels then
      let beta := (minPixels / (mh * mw)).sqrt
      ((mw * beta / factor).ceil * factor, (mh * beta / factor).ceil * factor)
    else (wBar, hBar)

/-- mirrors src/mapping/dots.cpp:149-151, 172-187 -/
def elementBox (element : Json) : Option BoundingBox :=
  let width := env.page.width.toFloat
  let height := env.page.height.toFloat
  let model := qwen2vlImageSize width height
  match json.member (ascii "bbox") element with
  | some (.arr values) =>
    if values.length ≠ 4 then none
    else
      match values.mapM fun value => (pythonFloat env json value).filter Float.isFinite with
      | some [l, t, r, b] =>
        some (LayoutWriter.scaledBox env.page l t r b (if 0 < model.1 then width / model.1 else 1)
          (if 0 < model.2 then height / model.2 else 1))
      | _ => none
  | _ => none

/-! ## Items -/

/-- mirrors src/mapping/dots.cpp:215-226 -/
def emitText (category body : Bytes) (label : DocItemLabel) (box : Option BoundingBox) :
    Builder Unit :=
  match fencedCode body with
  | some (hint, code) => do
    let item ← op env (.code box code hint none)
    editItem env item (.setOrig · body)
  | none =>
    if category == ascii "Formula" then do
      let _ ← op env (.formula box body none)
      pure ()
    else inlineItem env body label box none

/-- An element outside a list. -/
def emitOther (category body : Bytes) (box : Option BoundingBox) : Builder Unit :=
  if category == ascii "Table" then inlineTable env (some body) box none
  else if category == ascii "Picture" then do
    let _ ← op env (.picture box none)
    pure ()
  else if category == ascii "Title" || category == ascii "Section-header" then
    headingItem env (category == ascii "Title") box body
  else emitText env category body ((categoryLabel category).getD .text) box

/-- The list that is open behind an element.
mirrors src/mapping/dots.cpp:191-227 -/
def emitElement (list : Option BodyChild) (category body : Bytes) (box : Option BoundingBox) :
    Builder (Option BodyChild) :=
  if category == ascii "List-item" then do
    let list ← openList env list
    inlineListItem env box body body false [] list
    pure list
  else do
    emitOther env category body box
    pure none

/-- mirrors src/mapping/dots.cpp:153-155 -/
structure Loop where
  list : Option BodyChild := none
  starts : List Nat := []
  captionBlocks : List Nat := []

/-- An element with a box is written. -/
def Loop.emit (loop : Loop) (category body : Bytes) (box : Option BoundingBox) : Builder Loop :=
  match box with
  | none => pure loop
  | some box => do
    let list ← emitElement env loop.list category body (some box)
    pure { loop with list := list }

/-- mirrors src/mapping/dots.cpp:156-228 -/
def Loop.step (loop : Loop) (element : Json) : Builder Loop := do
  let s ← state
  let category := json.text (ascii "category") element
  let entered := { loop with
    starts := loop.starts ++ [s.out.writer.body.length]
    captionBlocks := if category == ascii "Caption" then loop.captionBlocks ++ [loop.starts.length]
      else loop.captionBlocks }
  entered.emit env category (json.text (ascii "text") element) (elementBox env json element)

/-- mirrors src/mapping/dots.cpp:141-147 -/
def elements (text : Bytes) : List Json :=
  if (trim text).isEmpty then []
  else
    match json.parse (cleanJson text) with
    | some (.arr elements) => elements
    | _ => []

/-- mirrors src/mapping/dots.cpp:138-231 -/
def mapDotsJson (text : Bytes) : Builder (Except Bytes (Document × Option (List PageWarning))) := do
  let loop ← (elements json text).foldlM (Loop.step env json) {}
  edit (linkedBlocks loop.starts loop.captionBlocks true)
  finishAs env (ascii "dots.ocr")

/-! ## What the mapper keeps -/

theorem sound_emitText (category body : Bytes) (label : DocItemLabel) (box : Option BoundingBox) :
    Sound (emitText env category body label box) := by
  unfold emitText
  split
  · exact Sound.bind (sound_op env trivial) fun item => sound_setOrig env item body
  · exact .ite (Sound.bind (sound_op env trivial) fun _ => sound_pure ())
      (sound_inlineItem env _ _ _ _)

theorem sound_emitElement (list : Option BodyChild) (category body : Bytes)
    (box : Option BoundingBox) :
    Sound (emitElement env list category body box) := by
  unfold emitElement emitOther
  refine .ite ?_ ?_
  · refine (sound_openList env list).bind fun list => ?_
    exact (sound_inlineListItem env _ _ _ _ _ _).bind fun _ => sound_pure _
  · refine Sound.bind (.ite (sound_inlineTable env _ _ _) (.ite ?_ (.ite ?_ ?_))) fun _ =>
      sound_pure _
    · exact Sound.bind (sound_op env trivial) fun _ => sound_pure ()
    · exact sound_headingItem env _ _ _
    · exact sound_emitText env _ _ _ _

theorem Loop.sound_step (loop : Loop) (element : Json) : Sound (loop.step env json element) := by
  unfold Loop.step
  refine sound_state.bind fun s => ?_
  unfold Loop.emit
  dsimp only
  split
  · exact sound_pure _
  · exact (sound_emitElement env _ _ _ _).bind fun list => sound_pure _

/-- **A dots.ocr page** keeps the flags and the levels. -/
theorem sound_mapDotsJson (text : Bytes) : Sound (mapDotsJson env json text) := by
  unfold mapDotsJson
  refine (sound_foldlM _ (fun loop element _ => loop.sound_step env json element) _).bind
    fun loop => ?_
  exact (sound_linkedBlocks _ _ _).bind fun _ => sound_finishAs env _

end Elements

end VlmConvert.L3.Dots

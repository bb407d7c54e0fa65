import VlmConvert.L3Document.BuilderGrowth
import VlmConvert.L3Document.DoclangGrowth
import VlmConvert.L3Document.PageForms
import VlmConvert.L3Document.ResponseLevels

/-!
# The mapper

`map_response` of `src/mapping/mapper.cpp` over every value of `ResponseFormat`:
plain text and OTSL beside the formats of `ResponseLevels`, and those that are
not served.

Results: `mapResponse_refTree` and `mapResponse_items`, whatever the format, the
response, the thread's flag and the point an exception would come: the
references of a page that is made are a tree, captions and footnotes name its
text items, every item is the page's and every table is within the caps.
-/
namespace VlmConvert.L3.Mapper

open Bytes L2

/-- mirrors proto/ai/pipestream/vlm/v1/vlm_convert.proto:158-200 -/
inductive ResponseFormat
  | unspecified | doctags | markdown | html | otsl | plaintext | doclang | deepseekocrMarkdown
  | unlimitedOcrMarkdown | chandraHtml | dotsJson | nemotronParseV2 | nemotronParseV35 | mineru2
  deriving DecidableEq, Repr

section Formats
variable (page : PageContext)

/-- One text item, whatever the text.
mirrors src/mapping/mapper.cpp:6-17 -/
def mapPlaintext (text : Bytes) : Except Bytes Document :=
  let body := trim text
  if body.isEmpty then .error (ascii "empty plaintext response")
  else
    let doc := addText {} page (Markdown.pageProv page) body .text
    .ok (finalizeDocument doc page (Markdown.bodyOrder doc))

/-- The payload may be wrapped in `<otsl>`; one left open ends with the text.
mirrors src/mapping/otsl.cpp:224-231 -/
def otslBody (text : Bytes) : Bytes :=
  match findSub (ascii "<otsl>") text with
  | none => text
  | some (_, opened) =>
    match findSub (ascii "</otsl>") opened with
    | none => opened.drop 6
    | some (content, _) => content.drop 6

/-- mirrors src/mapping/otsl.cpp:221-241 -/
def mapOtsl (byteSizeLong : TableCell → Nat) (text : Bytes) (warnings : Option (List PageWarning)) :
    Except Bytes (Document × Option (List PageWarning)) :=
  match parseOtslGrid byteSizeLong (otslBody text) with
  | none => .error (ascii "OTSL response held no complete table row")
  | some (data, cut) =>
    let doc := Document.addTables {}
      { newTable page (Markdown.pageProv page) with data := some data }
    .ok (finalizeDocument doc page (Markdown.bodyOrder doc),
      noteTableCut cut data (ascii "table") (bodyChildRef ⟨.table, 0⟩) warnings)

end Formats

/-- `none` is an exception.
mirrors src/mapping/mapper.cpp:19-54 -/
def mapResponse (r : Request) (format : ResponseFormat) (text : Bytes) : Option Chandra.Page :=
  match format with
  | .doctags => r.mapResponse .doctags text
  | .markdown => r.mapResponse .markdown text
  | .html => r.mapResponse .html text
  | .otsl => some (mapOtsl r.env.page r.env.byteSizeLong text r.warnings)
  | .plaintext => some ((mapPlaintext r.env.page text).map fun doc => (doc, r.warnings))
  | .doclang => r.mapResponse .doclang text
  | .deepseekocrMarkdown => r.mapResponse .deepseekOcr text
  | .unlimitedOcrMarkdown => r.mapResponse .unlimitedOcr text
  | .chandraHtml => r.mapResponse .chandra text
  | .dotsJson => r.mapResponse .dotsJson text
  | .nemotronParseV2 => r.mapResponse .nemotronV2 text
  | .nemotronParseV35 => r.mapResponse .nemotronV35 text
  | .mineru2 => some (.error (ascii "MinerU2 responses are not supported"))
  | .unspecified => some (.error (ascii "unresolved response format"))

/-! ## Well-formed pages -/

section WellFormed
variable {page : PageContext} {r : Request} {format : ResponseFormat} {text : Bytes}
  {made : Document × Option (List PageWarning)}

theorem mapPlaintext_wellFormed {doc : Document} (h : mapPlaintext page text = .ok doc) :
    doc.WellFormed page := by
  unfold mapPlaintext at h
  dsimp only at h
  split at h
  · cases h
  · cases h
    have hitem :
      (BaseTextItem.text (fillTextBase page .text (Markdown.pageProv page) (trim text))).OfPage
        page := ofPage_textBase _ _ rfl
    exact (flat_addTexts flat_empty rfl hitem rfl).wellFormed

theorem mapOtsl_wellFormed {byteSizeLong : TableCell → Nat} {warnings : Option (List PageWarning)}
    (h : mapOtsl page byteSizeLong text warnings = .ok made) : made.1.WellFormed page := by
  unfold mapOtsl at h
  split at h
  · cases h
  · rename_i data cut hgrid
    cases h
    exact (flat_addTable flat_empty rfl (parseOtslGrid_inCaps hgrid)).wellFormed

/-- A page a builder returns is that of a writer in order. -/
theorem build_wellFormed {m : Chandra.Builder Chandra.Page} (hm : Chandra.Finishes r.env m)
    (hbuilds : ∀ w, Chandra.Builds r.env w m Chandra.Anything) (h : r.build m = some (.ok made)) :
    made.1.WellFormed r.env.page := by
  unfold Request.build at h
  split at h
  · rename_i page c hrun
    cases h
    obtain ⟨formatName, hfinish⟩ := hm _ _ _ hrun
    have hstart := @LayoutWriter.inOrder_empty r.env.page r.warnings
    exact LayoutWriter.finish_wellFormed r.env.raster
      (hbuilds _ _ _ _ hrun hstart.grows).1.order hfinish
  · cases h

theorem request_wellFormed (format : Format) (h : r.mapResponse format text = some (.ok made)) :
    made.1.WellFormed r.env.page := by
  cases format with
  | doctags => exact Doctags.mapDoctags_wellFormed (Option.some.inj h)
  | doclang => exact Doclang.mapDoclang_wellFormed (Option.some.inj h)
  | deepseekOcr => exact Deepseek.mapDeepseekOcr_wellFormed (Option.some.inj h)
  | unlimitedOcr => exact Deepseek.mapDeepseekOcr_wellFormed (Option.some.inj h)
  | chandra =>
    exact build_wellFormed (Chandra.finishes_mapChandraHtml text)
      (fun _ => Chandra.builds_mapChandraHtml text) h
  | dotsJson =>
    exact build_wellFormed (Chandra.finishes_mapDotsJson _ text)
      (fun _ => Dots.builds_mapDotsJson _ text) h
  | nemotronV2 =>
    exact build_wellFormed (Chandra.finishes_mapNemotronParseV2 text)
      (fun _ => Nemotron.builds_mapNemotronParseV2 text) h
  | nemotronV35 =>
    exact build_wellFormed (Chandra.finishes_mapNemotronParseV35 text)
      (fun _ => Nemotron.builds_mapNemotronParseV35 text) h
  | markdown => exact Markdown.mapMarkdown_wellFormed (Option.some.inj h)
  | html => exact Html.mapHtml_wellFormed (Option.some.inj h)

/-- A page of any format is well formed. -/
theorem mapResponse_wellFormed (h : mapResponse r format text = some (.ok made)) :
    made.1.WellFormed r.env.page := by
  cases format with
  | doctags => exact request_wellFormed .doctags h
  | markdown => exact request_wellFormed .markdown h
  | html => exact request_wellFormed .html h
  | otsl => exact mapOtsl_wellFormed (Option.some.inj h)
  | plaintext =>
    rw [mapResponse] at h
    cases hdoc : mapPlaintext r.env.page text with
    | error message =>
      rw [hdoc] at h
      cases h
    | ok doc =>
      rw [hdoc] at h
      cases h
      exact mapPlaintext_wellFormed hdoc
  | doclang => exact request_wellFormed .doclang h
  | deepseekocrMarkdown => exact request_wellFormed .deepseekOcr h
  | unlimitedOcrMarkdown => exact request_wellFormed .unlimitedOcr h
  | chandraHtml => exact request_wellFormed .chandra h
  | dotsJson => exact request_wellFormed .dotsJson h
  | nemotronParseV2 => exact request_wellFormed .nemotronV2 h
  | nemotronParseV35 => exact request_wellFormed .nemotronV35 h
  | mineru2 => cases h
  | unspecified => cases h

end WellFormed

/-- **The references of a page**, whatever the format and the response, and
whenever an exception would have come: self, parent and child references are a
tree over all items, and every caption and footnote names a text item. -/
theorem mapResponse_refTree (r : Request) (format : ResponseFormat) (text : Bytes)
    (made : Document × Option (List PageWarning))
    (h : mapResponse r format text = some (.ok made)) :
    (∃ created, RefTree made.1 created ∧ ∀ ref, ref ∈ created ↔ ref.index < made.1.size ref.kind) ∧
      ∀ ref ∈ made.1.links, ∃ j, j < made.1.texts.length ∧ ref = bodyChildRef ⟨.text, j⟩ :=
  ⟨(mapResponse_wellFormed h).tree, (mapResponse_wellFormed h).linked⟩

/-- The page of a response, if one is made. -/
def pageMade : Option Chandra.Page → Option (Document × Option (List PageWarning))
  | some (.ok made) => some made
  | _ => none

theorem pageMade_some {page : Option Chandra.Page} (h : (pageMade page).isSome = true) :
    ∃ made, page = some (.ok made) := by
  unfold pageMade at h
  split at h
  · exact ⟨_, rfl⟩
  · cases h

/-- A DocTags page with a list and a captioned picture. -/
theorem mapResponse_refTree_sample : ∃ made,
    mapResponse sampleRequest .doctags Doctags.sampleResponse = some (.ok made) ∧
      (∃ created, RefTree made.1 created ∧
        ∀ ref, ref ∈ created ↔ ref.index < made.1.size ref.kind) ∧
      ∀ ref ∈ made.1.links, ∃ j, j < made.1.texts.length ∧ ref = bodyChildRef ⟨.text, j⟩ := by
  obtain ⟨made, h⟩ := @pageMade_some (mapResponse sampleRequest .doctags Doctags.sampleResponse)
    (by decide +kernel)
  exact ⟨made, h, mapResponse_refTree sampleRequest .doctags Doctags.sampleResponse made h⟩

/-- **The items of a page**, whatever the format and the response: every item is
at places on the page and has the page's sources, tables and chart data are
within the caps with a grid of their shape or none, and the page is the only
one. -/
theorem mapResponse_items (r : Request) (format : ResponseFormat) (text : Bytes)
    (made : Document × Option (List PageWarning))
    (h : mapResponse r format text = some (.ok made)) :
    made.1.OfPage r.env.page ∧
      made.1.pages = [⟨r.env.page.pageNo.toInt32, r.env.page.width, r.env.page.height⟩] :=
  ⟨(mapResponse_wellFormed h).items, (mapResponse_wellFormed h).pages⟩

/-- A table of two cells. -/
theorem mapResponse_items_sample : ∃ made,
    mapResponse sampleRequest .otsl (ascii "<otsl><fcel>a<fcel>b<nl></otsl>") = some (.ok made) ∧
      made.1.OfPage samplePage ∧
      made.1.pages = [⟨samplePage.pageNo.toInt32, samplePage.width, samplePage.height⟩] := by
  obtain ⟨made, h⟩ := @pageMade_some
    (mapResponse sampleRequest .otsl (ascii "<otsl><fcel>a<fcel>b<nl></otsl>")) (by decide)
  exact ⟨made, h,
    mapResponse_items sampleRequest .otsl (ascii "<otsl><fcel>a<fcel>b<nl></otsl>") made h⟩

end VlmConvert.L3.Mapper

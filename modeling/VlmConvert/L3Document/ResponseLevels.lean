import VlmConvert.L3Document.DoclangHeadings
import VlmConvert.L3Document.Doctags
import VlmConvert.L3Document.Html
import VlmConvert.L3Document.NemotronPage
import VlmConvert.L3Document.UnlimitedOcr

/-!
# The heading levels of every format

`map_response` of `src/mapping/mapper.cpp` over the formats that make section
headers. Levels come from tag suffixes (DocTags), an attribute (DocLang), runs
of `#` (DeepSeek-OCR, Unlimited-OCR, dots.ocr, Nemotron Parse, Markdown) and
the digits of `<hN>` (Chandra, HTML).

Results: `mapDoctags_leveled`, `mapMarkdown_leveled`, `mapDeepseekOcr_leveled`
and `mapResponse_levels_iff`: the levels of a page hold exactly when no DocLang
heading asks for a level below 1 and no `sub_title` starts with `2 ^ 31` hashes.
-/
namespace VlmConvert.L3

open Bytes L2

/-! ## DocTags -/

namespace Doctags

theorem stoi_range {lo hi n : Int} {text : Bytes} (h : stoi lo hi text = some n) :
    lo ≤ n ∧ n ≤ hi := by
  have hguard : ∀ (empty : Bool) (value : Int),
      (if empty || decide (value < lo) || decide (hi < value) then none else some value) = some n →
      lo ≤ n ∧ n ≤ hi := by
    intro empty value hsome
    split at hsome
    · cases hsome
    · rename_i hrange
      simp only [Bool.or_eq_true, decide_eq_true_eq, not_or, Int.not_lt] at hrange
      cases hsome
      exact ⟨hrange.1.2, hrange.2⟩
  exact hguard _ _ h

/-- A suffix that is no positive `int` counts as 1. -/
theorem headerLevel_valid (tag : Bytes) : ValidLevel (headerLevel tag) := by
  unfold headerLevel ValidLevel
  cases h : stoi32 (tag.drop 21) with
  | none => exact ⟨by decide, by decide⟩
  | some n =>
    have hrange := stoi_range h
    simp only [Option.map_some, Option.getD_some]
    omega

section Emit
variable (page : PageContext) (raster : PageRaster) (byteSizeLong : TableCell → Nat)

/-- The item, if there is one, is no header or one at a valid level. -/
def LeveledItem (item : Option BaseTextItem) : Prop :=
  ∀ made ∈ item, ∀ level ∈ made.headerLevel, ValidLevel level

theorem LeveledItem.ite {c : Prop} [Decidable c] {item item' : Option BaseTextItem}
    (h : LeveledItem item)
    (h' : LeveledItem item') : LeveledItem (if c then item else item') := by
  split
  · exact h
  · exact h'

theorem leveledItem_plain {item : BaseTextItem} (h : item.headerLevel = none) :
    LeveledItem (some item) := by
  intro made hmade level hlevel
  cases hmade
  rw [h] at hlevel
  cases hlevel

theorem leveledItem_header {base : TextItemBase} {level : Int} (h : ValidLevel level) :
    LeveledItem (some (.sectionHeader base level)) := by
  intro made hmade level' hlevel
  cases hmade
  cases hlevel
  exact h

theorem textItem_leveled (tag otsl text : Bytes) (prov : ProvenanceItem) :
    LeveledItem (textItem page tag otsl prov text) := by
  have hplain := @leveledItem_plain
  refine .ite (hplain rfl) (.ite (leveledItem_header (headerLevel_valid tag))
    (.ite (leveledItem_header ⟨by decide, by decide⟩) (.ite (hplain rfl) (.ite (hplain rfl)
    (.ite (hplain rfl) (.ite (hplain rfl) (.ite (hplain rfl) (.ite (hplain rfl) (.ite (hplain rfl)
    (.ite (hplain rfl) (.ite (hplain rfl) (.ite (hplain rfl) (.ite (hplain rfl)
    (.ite ?_ (hplain rfl)))))))))))))))
  rintro made ⟨⟩

theorem emitCaption_leveled {s : EmitState} (element : Element) (h : s.doc.Leveled) :
    (emitCaption page s element).1.doc.Leveled := by
  unfold emitCaption
  split
  · exact leveled_addTexts h (by rintro _ ⟨⟩)
  · exact h

theorem emitElement_leveled {s : EmitState} (element : Element) (box : Option BoundingBox)
    (h : s.doc.Leveled) : (emitElement page raster byteSizeLong s element box).1.doc.Leveled := by
  unfold emitElement
  dsimp only
  split
  · exact emitCaption_leveled page element h
  · split
    · exact emitCaption_leveled page element h
    · split
      · rename_i item hitem
        exact leveled_addTexts h (textItem_leveled page _ _ _ _ item hitem)
      · exact h

@[simp] theorem headerLevels_adopt (group : BodyChild) (doc : Document) (child : BodyChild) :
    (adopt group doc child).headerLevels = doc.headerLevels :=
  (headerLevels_addItemChild group _).trans (headerLevels_stampItem child _)

/-- The rule of a loop over a page. -/
theorem leveled_foldl {α σ : Type} {f : σ → α → σ} {doc : σ → Document}
    (hf : ∀ s a, (doc s).Leveled → (doc (f s a)).Leveled) (l : List α) :
    ∀ s, (doc s).Leveled → (doc (l.foldl f s)).Leveled := by
  induction l with
  | nil => exact fun _ h => h
  | cons a l ih => exact fun s h => ih (f s a) (hf s a h)

theorem emitListGroup_leveled {s : EmitState} (chunk : Bytes) (ordered : Bool) (h : s.doc.Leveled) :
    (emitListGroup page s chunk ordered).doc.Leveled := by
  unfold emitListGroup
  refine @leveled_foldl _ _ _ (fun doc : Document => doc) (fun doc item hdoc => ?_) _ _ h
  refine leveled_congr (leveled_addTexts hdoc ?_) (headerLevels_adopt _ _ _)
  rintro _ ⟨⟩

theorem emitInlineGroup_leveled {s : EmitState} (chunk : Bytes) (h : s.doc.Leveled) :
    (emitInlineGroup page raster byteSizeLong s chunk).doc.Leveled := by
  unfold emitInlineGroup
  refine @leveled_foldl _ _ _ EmitState.doc (fun s child hs => ?_) _ _ h
  refine @leveled_foldl _ _ _ (fun doc : Document => doc) (fun doc ref hdoc => ?_) _ _ ?_
  · exact leveled_congr hdoc (headerLevels_adopt _ _ _)
  · exact emitElement_leveled page raster byteSizeLong child _ hs

theorem emit_leveled (s : MapState) (emission : Emission) (h : s.doc.Leveled) :
    (emit page raster byteSizeLong s emission).doc.Leveled := by
  unfold emit
  split
  · exact emitElement_leveled page raster byteSizeLong _ none h
  · split
    · exact h
    · split
      · exact emitInlineGroup_leveled page raster byteSizeLong _ h
      · exact emitListGroup_leveled page _ _ h

/-- The headers of a DocTags page are at valid levels. -/
theorem mapDoctags_leveled {warnings : Option (List PageWarning)} {text : Bytes}
    {made : Document × Option (List PageWarning)}
    (h : mapDoctags page raster byteSizeLong warnings text = .ok made) : made.1.Leveled := by
  unfold mapDoctags at h
  split at h
  · cases h
  · dsimp only at h
    split at h
    · cases h
    · cases h
      refine leveled_congr ?_ (headerLevels_finalize page _)
      exact @leveled_foldl _ _ _ (fun s : MapState => s.doc)
        (emit_leveled page raster byteSizeLong) _ _ (by rintro _ ⟨⟩)

end Emit

end Doctags

/-! ## Markdown -/

namespace Markdown
variable (page : PageContext)

theorem headingOf_valid {stripped text : Bytes} {level : Nat}
    (h : headingOf stripped = some (level, text)) :
    ValidLevel level := by
  unfold headingOf at h
  dsimp only at h
  split at h
  · rename_i hhashes
    obtain ⟨hpos, hle, -⟩ := hhashes
    cases h
    unfold ValidLevel
    omega
  · cases h

theorem flushParagraph_leveled {r : Reader} (h : r.doc.Leveled) :
    (r.flushParagraph page).doc.Leveled := by
  unfold Reader.flushParagraph
  dsimp only
  split
  · exact h
  · exact leveled_addTexts h (by rintro _ ⟨⟩)

theorem read_leveled (n : Nat) :
    ∀ (lines : List Bytes) (r : Reader), lines.length ≤ n → r.doc.Leveled →
    (r.read page lines).doc.Leveled := by
  induction n with
  | zero =>
    intro lines r hn h
    obtain rfl := List.length_eq_zero_iff.1 (Nat.le_zero.1 hn)
    rw [Reader.read]
    exact flushParagraph_leveled page h
  | succ n ih =>
    intro lines r hn h
    have hflushed := flushParagraph_leveled page h
    cases lines with
    | nil =>
      rw [Reader.read]
      exact hflushed
    | cons line rest =>
      have hfence := (rest.dropWhile_suffix fun line => !startsFence line).length_le
      have hpipe := (rest.dropWhile_suffix startsPipe).length_le
      rw [List.length_cons] at hn
      rw [Reader.read]
      dsimp only
      split
      · refine ih _ _ ?_ (leveled_addTexts hflushed (by rintro _ ⟨⟩))
        rw [List.length_drop]
        omega
      · split
        · rename_i level heading hheading
          refine ih _ _ (by omega) (leveled_addTexts hflushed fun level' hlevel => ?_)
          cases hlevel
          exact headingOf_valid hheading
        · split
          · exact ih _ _ (by omega) hflushed
          · split
            · exact ih _ _ (by omega) (leveled_addTexts hflushed (by rintro _ ⟨⟩))
            · split
              · exact ih _ _ (by omega) hflushed
              · exact ih _ _ (by omega) h

/-- The headers of a Markdown page are at valid levels. -/
theorem mapMarkdown_leveled {text : Bytes} {warnings : Option (List PageWarning)}
    {made : Document × Option (List PageWarning)} (h : mapMarkdown page text warnings = .ok made) :
    made.1.Leveled := by
  unfold mapMarkdown at h
  split at h
  · cases h
  · dsimp only at h
    split at h
    · cases h
    · cases h
      refine leveled_congr ?_ (headerLevels_finalize page _)
      exact read_leveled page _ _ _ (Nat.le_refl _) (by rintro _ ⟨⟩)

end Markdown

/-! ## DeepSeek-OCR -/

namespace Deepseek
open LayoutWriter

/-- The number of hashes a content starts with. -/
def hashCount (content : Bytes) : Nat := (content.takeWhile (· == 0x23)).length

theorem castInt_eq_iff (n : Nat) : (n : Int).bmod (2 ^ 32) = n ↔ n < 2 ^ 31 := by
  rw [Int.bmod_def]
  constructor
  · intro h
    split at h
    · omega
    · omega
  · intro h
    split
    · omega
    · omega

theorem castInt_lt (n : Nat) : (n : Int).bmod (2 ^ 32) < 2 ^ 31 := by
  have := @Int.bmod_lt (n : Int) (2 ^ 32) (by decide)
  omega

/-- The `int` the hashes are counted in holds their number below `2 ^ 31`. -/
theorem stripHashes_exact_iff (content : Bytes) :
    (stripHashes content).2 = hashCount content ↔ hashCount content < 2 ^ 31 := by
  unfold stripHashes hashCount
  dsimp only
  exact castInt_eq_iff _

/-- Whatever the number of hashes, the level is an `int` from 1 on. -/
theorem stripHashes_valid (content : Bytes) :
    ValidLevel (if (stripHashes content).2 > 0 then (stripHashes content).2 else 2) := by
  have hlt : (stripHashes content).2 < 2 ^ 31 := by
    unfold stripHashes
    dsimp only
    exact castInt_lt _
  generalize (stripHashes content).2 = level at hlt ⊢
  unfold ValidLevel
  split
  · omega
  · omega

section Loop
variable (page : PageContext) (raster : PageRaster) (byteSizeLong : TableCell → Nat)

/-- An item is what one operation of the writer makes. -/
theorem emitItem_leveled {w : LayoutWriter} (block : GroundedBlock) (h : w.doc.Leveled) :
    (emitItem page raster byteSizeLong w block).1.doc.Leveled := by
  have hop := fun (op : Op) (hop : op.Leveled) => apply_leveled page raster byteSizeLong op hop h
  unfold emitItem
  split
  · exact hop (.picture (some block.box) none) trivial
  · split
    · exact hop (.table (some block.box) (deepseekTableCells block.content) none) trivial
    · split
      · exact hop (.title (some block.box) (stripHashes block.content).1 none) trivial
      · split
        · exact hop (.heading _ (some block.box) (stripHashes block.content).1 none)
            (stripHashes_valid block.content)
        · exact hop (.text (textLabel block.label) (some block.box) block.content none) trivial

theorem emitCaption_leveled {w : LayoutWriter} (label : Bytes) (next : Option GroundedBlock)
    (h : w.doc.Leveled) : (emitCaption page w label next).1.doc.Leveled := by
  unfold emitCaption
  split
  · split
    · exact leveled_congr h (headerLevels_text page _ _ _ _)
    · exact h
  · exact h

theorem emitBlock_leveled (blocks : List GroundedBlock) (w : LayoutWriter) (idx : Nat)
    (h : w.doc.Leveled) :
    (emitBlock page raster byteSizeLong blocks w idx).doc.Leveled := by
  unfold emitBlock
  split
  · exact h
  · rename_i block _
    have hcaption := emitCaption_leveled page block.label blocks[idx + 1]? h
    have hitem := emitItem_leveled page raster byteSizeLong block hcaption
    dsimp only
    generalize isWritten block.label _ = written
    cases written with
    | true => exact hcaption
    | false =>
      rw [if_neg Bool.false_ne_true]
      split
      · exact leveled_congr hitem (headerLevels_linkCaption _ _)
      · exact hitem

/-- The headers of a DeepSeek-OCR page are at valid levels. -/
theorem mapDeepseekOcr_leveled {fromChars : Bytes → Option (Float × Bytes)} {text : Bytes}
    {warnings : Option (List PageWarning)} {made : Document × Option (List PageWarning)}
    (h : mapDeepseekOcr page raster byteSizeLong fromChars text warnings = .ok made) :
    made.1.Leveled := by
  refine finish_leveled page raster ?_ h
  exact @Doctags.leveled_foldl _ _ _ LayoutWriter.doc
    (emitBlock_leveled page raster byteSizeLong _) _ _ (by rintro _ ⟨⟩)

end Loop

end Deepseek

/-! ## The builder's formats -/

namespace Chandra
open Interruptible

abbrev Page := Except Bytes (Document × Option (List PageWarning))

/-- A page the program returns is that of the writer it leaves. -/
def Finishes (env : Env) (m : Builder Page) : Prop :=
  ∀ c made c', m c = .ok (.ok made) c' →
    ∃ formatName, LayoutWriter.finish env.page env.raster c'.2.out.writer formatName true = .ok made

section Pages
variable {env : Env} {α : Type}

theorem finishes_error (message : Bytes) : Finishes env (pure (.error message)) := by
  rintro c made c' ⟨⟩

theorem finishes_finishAs (formatName : Bytes) : Finishes env (finishAs env formatName) := by
  intro c made c' h
  obtain ⟨hmade, rfl⟩ : LayoutWriter.finish env.page env.raster c.2.out.writer formatName true =
    .ok made ∧
      c = c' := by
    simpa [finishAs, state, Bind.bind, EStateM.bind, Pure.pure, EStateM.pure] using h
  exact ⟨formatName, hmade⟩

theorem Finishes.bind {m : Builder α} {f : α → Builder Page} (hf : ∀ a, Finishes env (f a)) :
    Finishes env (m >>= f) := by
  intro c made c' h
  cases hm : m c with
  | ok a between =>
    rw [bind_ok hm] at h
    exact hf a between made c' h
  | error e between =>
    rw [bind_error hm] at h
    cases h

theorem Finishes.ite {p : Prop} [Decidable p] {m m' : Builder Page} (h : Finishes env m)
    (h' : Finishes env m') : Finishes env (if p then m else m') := by
  split
  · exact h
  · exact h'

theorem finishes_mapChandraHtml (text : Bytes) : Finishes env (mapChandraHtml env text) :=
  .ite (finishes_finishAs _) (.ite (finishes_error _) (.bind fun _ => .bind fun _ =>
    .ite (finishes_error _) (finishes_finishAs _)))

theorem finishes_mapDotsJson (json : Dots.JsonReader) (text : Bytes) :
    Finishes env (Dots.mapDotsJson env json text) :=
  .bind fun _ => .bind fun _ => finishes_finishAs _

theorem finishes_mapNemotronParseV2 (text : Bytes) :
    Finishes env (Nemotron.mapNemotronParseV2 env text) :=
  .bind fun _ => finishes_finishAs _

theorem finishes_mapNemotronParseV35 (text : Bytes) :
    Finishes env (Nemotron.mapNemotronParseV35 env text) :=
  .bind fun _ => .bind fun _ => finishes_finishAs _

/-- A page that a sound program makes of a document without headers has headers
of valid levels only, whatever the thread's flag and wherever an exception may
come. -/
theorem Finishes.leveled {m : Builder Page} (hm : Finishes env m) (hsound : Sound m) {s s' : State}
    {fuse fuse' : Option Nat} {made : Document × Option (List PageWarning)}
    (hs : s.out.writer.doc.Leveled) (h : m (fuse, s) = .ok (.ok made) (fuse', s')) :
    made.1.Leveled := by
  obtain ⟨formatName, hfinish⟩ := hm _ _ _ h
  have hleft := (Meets.returned (hsound.levels s.out.writer s fun hstart => hstart) h).2
  exact LayoutWriter.finish_leveled env.page env.raster (hleft hs) hfinish

end Pages

end Chandra

/-! ## Every format -/

/-- The formats with section headers. -/
inductive Format
  | doctags | doclang | deepseekOcr | unlimitedOcr | chandra | dotsJson | nemotronV2 | nemotronV35
  | markdown | html
  deriving DecidableEq, Repr

/-- What a mapping gets beside the response: the page and its surroundings, the
warnings, the thread's flag, and when an exception comes. -/
structure Request where
  env : Chandra.Env
  json : Dots.JsonReader
  warnings : Option (List PageWarning) := none
  tSkipChem : Bool := false
  fuse : Option Nat := none

namespace Request
variable (r : Request)

/-- The page a builder returns; `none` is an exception. -/
def build (m : Chandra.Builder Chandra.Page) : Option Chandra.Page :=
  match m (r.fuse,
    { out := { writer := { warnings := r.warnings } }, tSkipChem := r.tSkipChem }) with
  | .ok page _ => some page
  | .error _ _ => none

/-- mirrors src/mapping/mapper.cpp:19-54 -/
def mapResponse (format : Format) (text : Bytes) : Option Chandra.Page :=
  let env := r.env
  match format with
  | .doctags => some (Doctags.mapDoctags env.page env.raster env.byteSizeLong r.warnings text)
  | .doclang => some (Doclang.mapDoclang env.page env.raster env.byteSizeLong text r.warnings)
  | .deepseekOcr =>
    some (Deepseek.mapDeepseekOcr env.page env.raster env.byteSizeLong env.fromChars text
      r.warnings)
  | .unlimitedOcr =>
    some (Deepseek.mapUnlimitedOcr env.page env.raster env.byteSizeLong env.fromChars text
      r.warnings)
  | .chandra => r.build (Chandra.mapChandraHtml env text)
  | .dotsJson => r.build (Dots.mapDotsJson env r.json text)
  | .nemotronV2 => r.build (Nemotron.mapNemotronParseV2 env text)
  | .nemotronV35 => r.build (Nemotron.mapNemotronParseV35 env text)
  | .markdown => some (Markdown.mapMarkdown env.page text r.warnings)
  | .html => some (Html.mapHtml env.page text r.warnings)

/-- The `sub_title` contents of a grounded response. -/
def subTitles (text : Bytes) : List Bytes :=
  ((Deepseek.groundedBlocks r.env.page r.env.fromChars text).filter fun block =>
    block.label == ascii "sub_title").map (·.content)

/-- The contents whose hashes are counted in an `int`. -/
def counted (format : Format) (text : Bytes) : List Bytes :=
  match format with
  | .deepseekOcr => r.subTitles text
  | .unlimitedOcr => r.subTitles (Deepseek.normalizeUnlimitedOcr text)
  | _ => []

/-- Every section header is at a level from 1 on that is an `int`, and every
count that becomes a level is exact. -/
structure LevelsHold (format : Format) (text : Bytes)
    (made : Document × Option (List PageWarning)) :
    Prop where
  headers : made.1.Leveled
  counts : ∀ content ∈ r.counted format text, (Deepseek.stripHashes content).2 =
    Deepseek.hashCount content

/-- What a response may ask for. -/
def LevelsAsked (format : Format) (text : Bytes) : Prop :=
  (format = .doclang → ∀ el ∈ Doclang.writtenHeadings text, 1 ≤ Doclang.headingLevel el) ∧
    ∀ content ∈ r.counted format text, Deepseek.hashCount content < 2 ^ 31

section Levels
variable {r} {format : Format} {text : Bytes} {made : Document × Option (List PageWarning)}

theorem build_leveled {m : Chandra.Builder Chandra.Page} (hm : Chandra.Finishes r.env m)
    (hsound : Chandra.Sound m) (h : r.build m = some (.ok made)) : made.1.Leveled := by
  unfold build at h
  split at h
  · rename_i page c hrun
    cases h
    exact hm.leveled hsound (by rintro _ ⟨⟩) hrun
  · cases h

/-- Only DocLang makes headers at other levels. -/
theorem mapResponse_leveled (hformat : format ≠ .doclang)
    (h : r.mapResponse format text = some (.ok made)) : made.1.Leveled := by
  cases format with
  | doctags => exact Doctags.mapDoctags_leveled _ _ _ (Option.some.inj h)
  | doclang => exact absurd rfl hformat
  | deepseekOcr => exact Deepseek.mapDeepseekOcr_leveled _ _ _ (Option.some.inj h)
  | unlimitedOcr => exact Deepseek.mapDeepseekOcr_leveled _ _ _ (Option.some.inj h)
  | chandra =>
    exact build_leveled (Chandra.finishes_mapChandraHtml text)
      (Chandra.sound_mapChandraHtml _ text) h
  | dotsJson =>
      exact build_leveled (Chandra.finishes_mapDotsJson _ text) (Dots.sound_mapDotsJson _ _ text) h
  | nemotronV2 =>
    exact build_leveled (Chandra.finishes_mapNemotronParseV2 text)
      (Nemotron.sound_mapNemotronParseV2 _ text) h
  | nemotronV35 =>
    exact build_leveled (Chandra.finishes_mapNemotronParseV35 text)
      (Nemotron.sound_mapNemotronParseV35 _ text) h
  | markdown => exact Markdown.mapMarkdown_leveled _ (Option.some.inj h)
  | html => exact Html.mapHtml_leveled _ (Option.some.inj h)

theorem counts_iff : (∀ content ∈ r.counted format text,
      (Deepseek.stripHashes content).2 = Deepseek.hashCount content) ↔
    ∀ content ∈ r.counted format text, Deepseek.hashCount content < 2 ^ 31 :=
  forall₂_congr fun content _ => Deepseek.stripHashes_exact_iff content

end Levels

end Request

/-- **Heading levels.** The levels of a page hold exactly when every DocLang
heading that is written has a level from 1 on and no `sub_title` starts with
`2 ^ 31` hashes; the other formats' levels always hold. -/
theorem mapResponse_levels_iff (r : Request) (format : Format) (text : Bytes)
    (made : Document × Option (List PageWarning))
    (h : r.mapResponse format text = some (.ok made)) :
    r.LevelsHold format text made ↔ r.LevelsAsked format text := by
  constructor
  · rintro ⟨hheaders, hcounts⟩
    refine ⟨?_, Request.counts_iff.1 hcounts⟩
    rintro rfl
    exact (Doclang.mapDoclang_leveled_iff _ _ _ _ _ (Option.some.inj h)).1 hheaders
  · rintro ⟨hlevels, hcounts⟩
    refine ⟨?_, Request.counts_iff.2 hcounts⟩
    by_cases hformat : format = .doclang
    · subst hformat
      exact (Doclang.mapDoclang_leveled_iff _ _ _ _ _ (Option.some.inj h)).2 (hlevels rfl)
    · exact Request.mapResponse_leveled hformat h

def sampleRequest : Request where
  env := Chandra.sampleEnv
  json := ⟨fun _ => none, id, fun _ => 0⟩

/-- A DocLang page of one heading. -/
def headingResponse (level : String) : Bytes :=
  ascii "<doclang><heading level=\"" ++ ascii level ++ ascii "\">x</heading></doclang>"

def pageLevels : Option Chandra.Page → Option (List Int)
  | some (.ok made) => some made.1.headerLevels
  | _ => none

theorem pageLevels_made {page : Option Chandra.Page} {levels : List Int}
    (h : pageLevels page = some levels) :
    ∃ made, page = some (.ok made) ∧ made.1.headerLevels = levels := by
  unfold pageLevels at h
  split at h
  · rename_i made
    exact ⟨made, rfl, Option.some.inj h⟩
  · cases h

theorem mapResponse_levels_sample : ∃ made,
    sampleRequest.mapResponse .doclang (headingResponse "2") = some (.ok made) ∧
      made.1.headerLevels = [1] ∧
      (sampleRequest.LevelsHold .doclang (headingResponse "2") made ↔
        sampleRequest.LevelsAsked .doclang (headingResponse "2")) := by
  obtain ⟨made, h, hlevels⟩ := @pageLevels_made
    (sampleRequest.mapResponse .doclang (headingResponse "2")) [1] (by decide +kernel)
  exact ⟨made, h, hlevels, mapResponse_levels_iff _ _ _ made h⟩

/-- A heading at level 0 becomes a section header at level -1. -/
theorem heading_below_one : ¬ ∀ (r : Request) (format : Format) (text : Bytes)
    (made : Document × Option (List PageWarning)), r.mapResponse format text = some (.ok made) →
    r.LevelsHold format text made := by
  intro hclaim
  obtain ⟨made, h, hlevels⟩ := @pageLevels_made
    (sampleRequest.mapResponse .doclang (headingResponse "0")) [-1] (by decide +kernel)
  have hvalid := (hclaim sampleRequest .doclang (headingResponse "0") made h).headers (-1)
  rw [hlevels] at hvalid
  exact absurd (hvalid (List.mem_singleton.2 rfl)).1 (by decide)

end VlmConvert.L3

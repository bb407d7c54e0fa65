import VlmConvert.L3Document.LayoutWriter

/-!
# Heading levels

A section header carries its raw level, which the model computes in unbounded
integers. The writer sets it when the header is made and with
`set_heading_level`; every other operation, and stamping the references, leaves
the levels of a document as they are.

Results: `headerLevels_apply`, the levels an operation adds, and `apply_leveled`
and `finish_leveled`, a page whose operations ask for valid levels has only
section headers of such levels.
-/
namespace VlmConvert.L3

open Bytes L2

/-- From 1 on, and an `int`. -/
def ValidLevel (level : Int) : Prop := 1 ≤ level ∧ level < 2 ^ 31

/-- The level of a section header. -/
def BaseTextItem.headerLevel : BaseTextItem → Option Int
  | .sectionHeader _ level => some level
  | _ => none

/-- The levels of the section headers, in the order they were made. -/
def Document.headerLevels (doc : Document) : List Int :=
  doc.texts.filterMap BaseTextItem.headerLevel

/-- Every section header has a valid level. -/
def Document.Leveled (doc : Document) : Prop := ∀ level ∈ doc.headerLevels, ValidLevel level

section Documents
variable {doc : Document}

@[simp] theorem headerLevels_addTexts (item : BaseTextItem) :
    (doc.addTexts item).headerLevels = doc.headerLevels ++ item.headerLevel.toList := by
  rw [Document.headerLevels, Document.addTexts, List.filterMap_append]
  cases h : item.headerLevel <;> simp [Document.headerLevels, h]

/-- An edit of an item that keeps its level. -/
theorem headerLevels_modify {i : Nat} {f : BaseTextItem → BaseTextItem}
    (hf : ∀ item, (f item).headerLevel = item.headerLevel) :
    ({ doc with texts := doc.texts.modify i f } : Document).headerLevels = doc.headerLevels := by
  unfold Document.headerLevels
  dsimp only
  induction doc.texts generalizing i with
  | nil => cases i <;> rfl
  | cons item texts ih =>
    cases i with
    | zero => rw [List.modify_zero_cons, List.filterMap_cons, List.filterMap_cons, hf item]
    | succ i => rw [List.modify_succ_cons, List.filterMap_cons, List.filterMap_cons, ih]

theorem headerLevel_mapBase (f : TextItemBase → TextItemBase) (item : BaseTextItem) :
    (item.mapBase f).headerLevel = item.headerLevel := by
  cases item <;> rfl

/-- A code item's fields and the base of another item hold no level. -/
theorem headerLevel_edit {code : CodeItem → CodeItem} {base : TextItemBase → TextItemBase}
    (item : BaseTextItem) : (match item with
      | .code item => BaseTextItem.code (code item)
      | item => item.mapBase base).headerLevel = item.headerLevel := by
  cases item <;> rfl

@[simp] theorem headerLevels_stampItem (child : BodyChild) (ref : Bytes) :
    (stampItem doc child ref).headerLevels = doc.headerLevels := by
  unfold stampItem
  split
  · exact headerLevels_modify fun item => by cases item <;> rfl
  all_goals rfl

@[simp] theorem headerLevels_addItemChild (parent : BodyChild) (ref : Bytes) :
    (addItemChild doc parent ref).headerLevels = doc.headerLevels := by
  unfold addItemChild
  split
  case h_5 => exact headerLevels_modify fun item => by cases item <;> rfl
  all_goals rfl

/-- Stamping and the page entry keep the levels. -/
@[simp] theorem headerLevels_finalize (page : PageContext) (order : List BodyChild) :
    (finalizeDocument doc page order).headerLevels = doc.headerLevels := by
  have hfold : ∀ (order : List BodyChild) (doc : Document),
      (order.foldl
        (fun doc child => addBodyChild (stampItem doc child bodyRef) (bodyChildRef child))
        doc).headerLevels = doc.headerLevels := by
    intro order
    induction order with
    | nil => exact fun _ => rfl
    | cons child order ih => exact fun doc => (ih _).trans (headerLevels_stampItem child bodyRef)
  exact hfold order (startBody doc page)

theorem leveled_addTexts {item : BaseTextItem} (h : doc.Leveled)
    (hitem : ∀ level ∈ item.headerLevel, ValidLevel level) : (doc.addTexts item).Leveled := by
  intro level hlevel
  rw [headerLevels_addTexts] at hlevel
  rcases List.mem_append.1 hlevel with hlevel | hlevel
  · exact h level hlevel
  · exact hitem level (Option.mem_toList.1 hlevel)

theorem leveled_congr {doc' : Document} (h : doc.Leveled)
    (heq : doc'.headerLevels = doc.headerLevels) :
    doc'.Leveled := by
  rw [Document.Leveled, heq]
  exact h

end Documents

namespace LayoutWriter

/-- The levels of the headers an operation makes. -/
def Op.levels : Op → List Int
  | .heading level _ _ _ => [level]
  | .styledText .sectionHeader _ _ _ _ _ => [1]
  | _ => []

/-- The operation asks for valid levels. -/
def Op.Leveled : Op → Prop
  | .heading level _ _ _ => ValidLevel level
  | .setHeadingLevel _ level => ValidLevel level
  | _ => True

/-- The operation sets the level of a header made before. -/
def Op.Relevels : Op → Prop
  | .setHeadingLevel _ _ => True
  | _ => False

section Steps
variable {w : LayoutWriter}

@[simp] theorem headerLevels_modifyText {i : Nat} {f : BaseTextItem → BaseTextItem}
    (hf : ∀ item, (f item).headerLevel = item.headerLevel) :
    (modifyText w i f).doc.headerLevels = w.doc.headerLevels :=
  headerLevels_modify hf

variable (page : PageContext) (raster : PageRaster) (byteSizeLong : TableCell → Nat)

theorem headerLevels_text (box : Option BoundingBox) (body : Bytes) (p : Option BodyChild)
    (label : DocItemLabel) :
    (text page w box body p label).1.doc.headerLevels = w.doc.headerLevels := by
  unfold text stampLayer
  split
  · exact (headerLevels_addTexts _).trans (List.append_nil _)
  · exact (headerLevels_addTexts _).trans (List.append_nil _)

/-- A header made from a run is at level 1. -/
theorem headerLevels_styledItem (box : Option BoundingBox) (body : Bytes) (p : Option BodyChild)
    (label : DocItemLabel) : (match label with
      | .title => title page w box body p
      | .sectionHeader => heading page w box body p 1
      | .formula => formula page w box body p
      | .code => code page w box body p []
      | .fieldValue => enterText w (w.doc.addTexts (.fieldValue
          (fillTextBase page label (prov page box (charLength body)) body) (ascii "fillable"))) p
      | _ => text page w box body p label).1.doc.headerLevels =
        w.doc.headerLevels ++ if label = .sectionHeader then [1] else [] := by
  split
  case h_6 hne _ _ _ =>
    rw [if_neg hne, List.append_nil]
    exact headerLevels_text page box body p label
  all_goals exact headerLevels_addTexts _

theorem headerLevels_styledText (box : Option BoundingBox) (body : Bytes) (p : Option BodyChild)
    (label : DocItemLabel) (formatting : Option Wire) (hyperlink : Bytes) :
    (styledText page w box body p label formatting hyperlink).1.doc.headerLevels =
      w.doc.headerLevels ++ if label = .sectionHeader then [1] else [] :=
  (headerLevels_modify fun item => headerLevel_mapBase _ item).trans
    (headerLevels_styledItem page box body p label)

theorem setHeadingLevel_leveled {level : Int} (hlevel : ValidLevel level) (i : Nat)
    (h : w.doc.Leveled) :
    (setHeadingLevel w i level).doc.Leveled := by
  intro l hl
  obtain ⟨item, hitem, hl⟩ := List.mem_filterMap.1 hl
  rcases mem_modify hitem with hitem | ⟨item', hitem', rfl⟩
  · exact h l (List.mem_filterMap.2 ⟨item, hitem, hl⟩)
  · cases item' with
    | sectionHeader base _ =>
      cases hl
      exact hlevel
    | _ => cases hl

theorem headerLevels_linkCaption (owner caption : BodyChild) :
    (linkCaption w owner caption).doc.headerLevels = w.doc.headerLevels := by
  unfold linkCaption
  dsimp only
  split
  case h_3 => exact headerLevels_modifyText fun item => by cases item <;> rfl
  all_goals rfl

theorem headerLevels_linkFootnote (owner footnote : BodyChild) :
    (linkFootnote w owner footnote).doc.headerLevels = w.doc.headerLevels := by
  unfold linkFootnote
  dsimp only
  split
  case h_3 => exact headerLevels_modifyText fun item => by cases item <;> rfl
  all_goals rfl

theorem headerLevels_table (box : Option BoundingBox) (p : Option BodyChild)
    (cells : List SpanCell) :
    (table page byteSizeLong w box p cells).1.doc.headerLevels = w.doc.headerLevels := by
  unfold table
  dsimp only
  split
  · rfl
  · rfl

theorem headerLevels_setText (ref : BodyChild) (body : Bytes) (formatting : Option Wire)
    (hyperlink : Bytes) :
    (setText w body ref formatting hyperlink).doc.headerLevels = w.doc.headerLevels := by
  unfold setText
  split
  · rfl
  · exact headerLevels_modifyText headerLevel_edit

theorem headerLevels_setOrig (ref : BodyChild) (orig : Bytes) :
    (setOrig w ref orig).doc.headerLevels = w.doc.headerLevels := by
  unfold setOrig
  split
  · rfl
  · exact headerLevels_modifyText headerLevel_edit

theorem headerLevels_setContentLayer (ref : BodyChild) (layer : ContentLayer) :
    (setContentLayer w ref layer).doc.headerLevels = w.doc.headerLevels := by
  unfold setContentLayer
  split
  · exact headerLevels_modifyText headerLevel_edit
  · rfl
  · rfl

/-- **The levels an operation adds**, unless it sets the level of a header. -/
theorem headerLevels_apply {op : Op} (hop : ¬ op.Relevels) :
    (apply page raster byteSizeLong w op).1.doc.headerLevels = w.doc.headerLevels ++ op.levels := by
  cases op with
  | heading level box body p => exact headerLevels_addTexts _
  | styledText label box body formatting hyperlink p =>
    refine (headerLevels_styledText page box body p label formatting hyperlink).trans ?_
    cases label <;> rfl
  | setHeadingLevel i level => exact absurd trivial hop
  | text label box body p =>
    exact (headerLevels_text page box body p label).trans (List.append_nil _).symm
  | table box cells p =>
    exact (headerLevels_table page byteSizeLong box p cells).trans (List.append_nil _).symm
  | setText ref body formatting hyperlink =>
    exact (headerLevels_setText ref body formatting hyperlink).trans (List.append_nil _).symm
  | setOrig ref orig => exact (headerLevels_setOrig ref orig).trans (List.append_nil _).symm
  | setContentLayer ref layer =>
    exact (headerLevels_setContentLayer ref layer).trans (List.append_nil _).symm
  | linkCaption owner caption =>
    exact (headerLevels_linkCaption owner caption).trans (List.append_nil _).symm
  | linkFootnote owner footnote =>
    exact (headerLevels_linkFootnote owner footnote).trans (List.append_nil _).symm
  | title _ _ _ | formula _ _ _ | code _ _ _ _ | listItem _ _ _ _ _ =>
    exact headerLevels_addTexts _
  | listGroup _ | group _ _ _ | fieldRegion _ _ | inlineGroup _ | picture _ _ =>
    exact (List.append_nil _).symm

/-- **An operation that asks for valid levels keeps them.** -/
theorem apply_leveled (op : Op) (hop : op.Leveled) (h : w.doc.Leveled) :
    (apply page raster byteSizeLong w op).1.doc.Leveled := by
  by_cases hre : op.Relevels
  · cases op with
    | setHeadingLevel i level => exact setHeadingLevel_leveled hop i h
    | _ => exact hre.elim
  · intro level hlevel
    rw [headerLevels_apply page raster byteSizeLong hre] at hlevel
    rcases List.mem_append.1 hlevel with hlevel | hlevel
    · exact h level hlevel
    · cases op with
      | heading l box body p =>
        rw [List.mem_singleton.1 hlevel]
        exact hop
      | styledText label box body formatting hyperlink p =>
        cases label with
        | sectionHeader =>
          rw [List.mem_singleton.1 hlevel]
          exact ⟨Int.le_refl 1, by decide⟩
        | _ => cases hlevel
      | _ => cases hlevel

/-- Finishing a page keeps the levels. -/
theorem headerLevels_finish {formatName : Bytes} {allowEmpty : Bool}
    {made : Document × Option (List PageWarning)}
    (hfinish : finish page raster w formatName allowEmpty = .ok made) :
    made.1.headerLevels = w.doc.headerLevels := by
  have hstamp : ∀ (entries : List (BodyChild × Option BodyChild)) (doc : Document),
      (entries.foldl stampEntry doc).headerLevels = doc.headerLevels := by
    intro entries
    induction entries with
    | nil => exact fun _ => rfl
    | cons entry entries ih =>
      intro doc
      refine (ih _).trans ?_
      unfold stampEntry
      split
      · rfl
      · dsimp only
        split
        · exact headerLevels_addItemChild _ _
        · exact (headerLevels_addItemChild _ _).trans (headerLevels_stampItem _ _)
  unfold finish at hfinish
  split at hfinish
  · cases hfinish
  · cases hfinish
    exact (hstamp _ _).trans (headerLevels_finalize page w.body)

theorem finish_leveled {formatName : Bytes} {allowEmpty : Bool}
    {made : Document × Option (List PageWarning)}
    (h : w.doc.Leveled) (hfinish : finish page raster w formatName allowEmpty = .ok made) :
    made.1.Leveled :=
  leveled_congr h (headerLevels_finish page raster hfinish)

end Steps

end LayoutWriter

end VlmConvert.L3

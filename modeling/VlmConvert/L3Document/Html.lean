import VlmConvert.L1Text.ElementScanner
import VlmConvert.L1Text.StripTags
import VlmConvert.L3Document.HeadingLevels
import VlmConvert.L3Document.Markdown

/-!
# HTML pages

`map_html` of `src/mapping/html.cpp` reads the block elements of a page, one
after the other; an element inside another is part of its content. Headings,
list items, code and tables have item kinds of their own, every other block is
a paragraph.

Results: `elements_enough`, as many calls of the scanner as the text has bytes
find all elements, and `mapHtml_leveled`, the headers of a page are at the
levels of the tags `h1` to `h6`.
-/
namespace VlmConvert.L3.Html

open Bytes L1.Html L2 L3.Markdown

/-! ## Elements -/

/-- What the calls before the first empty one return. -/
def foundBefore (calls : List (Option L1.Html.Found)) : List L1.Html.Found :=
  (calls.takeWhile Option.isSome).reduceOption

/-- The elements of a text. -/
def elements (text : Bytes) (tags : TagSet) : List L1.Html.Found :=
  foundBefore (calls (cachedSearches text tags.names) text tags.names text.length
    { close := List.replicate tags.names.length {} } 0)

/-- Cells of a row, and whether it is a header row.
mirrors src/mapping/html.cpp:224-235 -/
def cellsOf (html : Bytes) : List Bytes × Bool :=
  let cells := elements html .cells
  (cells.map fun cell => stripTags cell.content,
    !cells.isEmpty && cells.all fun cell => cell.name == ascii "th")

/-- The rows with cells, and the number of header rows they start with.
mirrors src/mapping/html.cpp:222-262 -/
def parseTableRows (html : Bytes) : List (List Bytes) × Nat :=
  let kept := ((elements html .rows).map fun row => cellsOf row.content).filter fun row =>
    !row.1.isEmpty
  let rows := if kept.isEmpty then [cellsOf html].filter fun row => !row.1.isEmpty else kept
  (rows.map Prod.fst, (rows.takeWhile Prod.snd).length)

/-! ## The mapper -/

structure Reader where
  doc : Document := {}
  items : Nat := 0
  warnings : Option (List PageWarning) := none

section Map
variable (page : PageContext)

/-- mirrors src/mapping/html.cpp:289-305 -/
def addHtmlTable (r : Reader) (content body : Bytes) : Reader :=
  let (rows, headerRows) := parseTableRows content
  let rows := if rows.isEmpty && !body.isEmpty then [[body]] else rows
  let (data, cut) := fillTableData rows headerRows
  { r with
    doc := r.doc.addTables { newTable page (pageProv page) with data := some data }
    warnings := noteTableCut cut data (ascii "table") (bodyChildRef ⟨.table, r.doc.tables.length⟩)
      r.warnings }

/-- mirrors src/mapping/html.cpp:275-309 -/
def emitBlock (r : Reader) (block : L1.Html.Found) : Reader :=
  let tag := block.name
  let body := stripTags block.content
  if body.isEmpty && tag != ascii "table" then r
  else
    let made := if tag.head? == some 0x68 then
        let level := ((tag.getD 1 0).toNat : Int) - 0x30
        { r with doc := addSectionHeader r.doc page (pageProv page) body level }
      else if tag == ascii "li" then
        { r with doc := addListItem r.doc page (pageProv page) body false [] }
      else if tag == ascii "pre" || tag == ascii "code" then
        { r with doc := addCode r.doc page (pageProv page) body [] none }
      else if tag == ascii "table" then addHtmlTable page r block.content body
      else { r with doc := addText r.doc page (pageProv page) body .paragraph }
    { made with items := made.items + 1 }

/-- mirrors src/mapping/html.cpp:266-314 -/
def mapHtml (text : Bytes) (warnings : Option (List PageWarning)) :
    Except Bytes (Document × Option (List PageWarning)) :=
  let r := (elements text .blocks).foldl (emitBlock page) { warnings := warnings }
  if r.items = 0 then .error (ascii "HTML response held no block-level elements")
  else .ok (finalizeDocument r.doc page (bodyOrder r.doc), r.warnings)

end Map

/-! ## The scanner comes to an end -/

section Scanner
variable {σ : Type} {searches : Searches σ} {text : Bytes} {names : List Bytes}

/-- An element carries one of the names and ends behind the `<` it starts
with. -/
theorem tryElement_found {s s' : σ} {open_ i pos : Nat} {found : L1.Html.Found}
    (hi : i < names.length)
    (h : tryElement searches text names s open_ i = (some (some found, pos), s')) :
    found.name ∈ names := by
  unfold tryElement at h
  dsimp only at h
  split at h
  · cases h
  · split at h
    · cases h
    · cases h
      dsimp only
      rw [List.getD_eq_getElem?_getD, List.getElem?_eq_getElem hi]
      exact List.getElem_mem hi

theorem next_name : ∀ (n pos : Nat) (s : σ), text.length - pos ≤ n →
    ∀ found ∈ (next searches text names s pos).1, found.name ∈ names := by
  intro n
  induction n with
  | zero =>
    intro pos s hn found hfound
    have hnone : findFrom text 0x3C pos = none := firstFrom_eq_none.2 fun j hj hjl => by omega
    rw [next_eq, hnone] at hfound
    cases hfound
  | succ n ih =>
    intro pos s hn found hfound
    rw [next_eq] at hfound
    cases hopen : findFrom text 0x3C pos with
    | none =>
      rw [hopen] at hfound
      cases hfound
    | some open_ =>
      have hbounds := findFrom_bounds hopen
      rw [hopen] at hfound
      dsimp only at hfound
      cases hname : names.findIdx? (opensName text open_) with
      | none =>
        rw [hname] at hfound
        exact ih _ _ (by omega) found hfound
      | some i =>
        obtain ⟨hi, -⟩ := List.findIdx?_eq_some_iff_getElem.1 hname
        rw [hname] at hfound
        dsimp only at hfound
        split at hfound
        · exact ih _ _ (by omega) found hfound
        · rename_i made pos' s' htry
          obtain rfl : made = some found := hfound
          exact tryElement_found hi htry

theorem calls_name (n : Nat) : ∀ (s : σ) (pos : Nat), ∀ found,
    some found ∈ calls searches text names n s pos → found.name ∈ names := by
  induction n with
  | zero => intro s pos found h; cases h
  | succ n ih =>
    intro s pos found h
    rw [calls] at h
    rcases List.mem_cons.1 h with h | h
    · exact next_name _ pos s (Nat.le_refl _) found h.symm
    · exact ih _ _ found h

end Scanner

/-- A found element ends behind where the call started, within the text. -/
theorem next_fresh_pos {text : Bytes} {names : List Bytes} {found : L1.Html.Found} :
    ∀ (n : Nat) {pos pos' : Nat},
    text.length - pos ≤ n → next (freshSearches text names) text names () pos =
      (some found, (), pos') →
    pos < pos' ∧ pos' ≤ text.length := by
  intro n
  induction n with
  | zero =>
    intro pos pos' hn h
    have hnone : findFrom text 0x3C pos = none := firstFrom_eq_none.2 fun j hj hjl => by omega
    rw [next_eq, hnone] at h
    cases h
  | succ n ih =>
    intro pos pos' hn h
    rw [next_eq] at h
    cases hopen : findFrom text 0x3C pos with
    | none =>
      rw [hopen] at h
      cases h
    | some open_ =>
      obtain ⟨hpos, hlt⟩ := findFrom_bounds hopen
      have hlater : ∀ {s : Unit}, next (freshSearches text names) text names s (open_ + 1) =
          (some found, (), pos') → pos < pos' ∧ pos' ≤ text.length := by
        intro s h
        have := ih (by omega) h
        omega
      rw [hopen] at h
      dsimp only at h
      split at h
      · exact hlater h
      · split at h
        · exact hlater h
        · rename_i i _ _ made end_ s htry
          obtain ⟨rfl, -, rfl⟩ : made = some found ∧ s = () ∧ end_ = pos' := by
            simpa using h
          unfold tryElement freshSearches at htry
          dsimp only at htry
          split at htry
          · cases htry
          · rename_i gt _ hgt
            split at htry
            · cases htry
            · rename_i close _ hclose
              obtain ⟨hfrom, -, hat, -⟩ := firstFrom_spec (Prod.mk.inj hclose).1
              have hgt' := findFrom_bounds (Prod.mk.inj hgt).1
              have hfits : close + (closeTag (names.getD i [])).length ≤ text.length := by
                unfold atCi at hat
                split at hat
                · cases hat
                · rename_i hle
                  simp only [Bool.or_eq_true, decide_eq_true_eq, not_or, Nat.not_lt] at hle
                  omega
              simp only [Prod.mk.injEq, Option.some.injEq] at htry
              omega

/-- As many calls as there are bytes find all elements. -/
theorem foundBefore_enough {text : Bytes} {names : List Bytes} : ∀ (n : Nat) {m pos : Nat},
    text.length - pos ≤ n → n ≤ m →
    foundBefore (calls (freshSearches text names) text names n () pos) =
      foundBefore (calls (freshSearches text names) text names m () pos) := by
  intro n
  induction n with
  | zero =>
    intro m pos hn hm
    have hnone : findFrom text 0x3C pos = none := firstFrom_eq_none.2 fun j hj hjl => by omega
    cases m with
    | zero => rfl
    | succ m =>
      rw [calls, calls, next_eq, hnone]
      rfl
  | succ n ih =>
    intro m pos hn hm
    obtain ⟨m, rfl⟩ : ∃ k, m = k + 1 := ⟨m - 1, by omega⟩
    rw [calls, calls]
    cases hnext : next (freshSearches text names) text names () pos with
    | mk made rest =>
      obtain ⟨⟨⟩, pos'⟩ := rest
      cases made with
      | none => rfl
      | some found =>
        have hpos := next_fresh_pos _ (Nat.le_refl _) hnext
        have hrest := @ih m pos' (by omega) (by omega)
        simp only [foundBefore, List.takeWhile_cons, Option.isSome_some, if_true,
          List.reduceOption_cons_of_some] at hrest ⊢
        rw [hrest]

/-- The scanner starts with caches that hold nothing yet. -/
theorem cachesFit_start (text : Bytes) (tags : TagSet) :
    CachesFit text tags.names { close := List.replicate tags.names.length {} } 0 := by
  have hempty : ∀ i, (List.replicate tags.names.length ({} : Cached)).getD i {} = {} := by
    intro i
    cases h : (List.replicate tags.names.length ({} : Cached))[i]? with
    | none => rw [List.getD_eq_getElem?_getD, h, Option.getD_none]
    | some c =>
      rw [List.getD_eq_getElem?_getD, h, List.eq_of_mem_replicate (List.mem_of_getElem? h)]; rfl
  refine ⟨⟨by rintro ⟨⟩, by rintro ⟨⟩⟩, List.length_replicate, fun i => ?_⟩
  dsimp only
  rw [hempty]
  exact ⟨by rintro ⟨⟩, by rintro ⟨⟩⟩

theorem calls_cached (text : Bytes) (tags : TagSet) (n : Nat) :
    calls (cachedSearches text tags.names) text tags.names n
        { close := List.replicate tags.names.length {} } 0 =
      calls (freshSearches text tags.names) text tags.names n () 0 :=
  calls_exact (by cases tags <;> decide) n _ 0 (cachesFit_start text tags)

/-- **More calls find nothing more.** -/
theorem elements_enough (text : Bytes) (tags : TagSet) {n : Nat} (hn : text.length ≤ n) :
    elements text tags = foundBefore (calls (cachedSearches text tags.names) text tags.names n
      { close := List.replicate tags.names.length {} } 0) := by
  rw [elements, calls_cached, calls_cached]
  exact foundBefore_enough _ (Nat.le_refl _) hn

theorem elements_name {text : Bytes} {tags : TagSet} {found : L1.Html.Found}
    (h : found ∈ elements text tags) :
    found.name ∈ tags.names := by
  rw [elements, foundBefore, List.reduceOption_mem_iff] at h
  exact calls_name _ _ _ found ((List.takeWhile_prefix _).mem h)

/-! ## Levels -/

section Levels
variable (page : PageContext)

theorem emitBlock_leveled {r : Reader} {block : L1.Html.Found}
    (hname : block.name ∈ TagSet.blocks.names)
    (h : r.doc.Leveled) : (emitBlock page r block).doc.Leveled := by
  have hdigits : ∀ name ∈ TagSet.blocks.names, name.head? = some 0x68 →
      ValidLevel (((name.getD 1 0).toNat : Int) - 0x30) := by
    unfold ValidLevel
    decide
  unfold emitBlock
  dsimp only
  split
  · exact h
  · split
    · rename_i hhead
      refine leveled_addTexts h fun level hlevel => ?_
      cases hlevel
      exact hdigits block.name hname (beq_iff_eq.1 hhead)
    · split
      · exact leveled_addTexts h (by rintro _ ⟨⟩)
      · split
        · exact leveled_addTexts h (by rintro _ ⟨⟩)
        · split
          · exact h
          · exact leveled_addTexts h (by rintro _ ⟨⟩)

/-- The headers of an HTML page are at valid levels. -/
theorem mapHtml_leveled {text : Bytes} {warnings : Option (List PageWarning)}
    {made : Document × Option (List PageWarning)} (h : mapHtml page text warnings = .ok made) :
    made.1.Leveled := by
  have hblocks : ∀ (blocks : List L1.Html.Found) (r : Reader),
      (∀ block ∈ blocks, block.name ∈ TagSet.blocks.names) →
      r.doc.Leveled → (blocks.foldl (emitBlock page) r).doc.Leveled := by
    intro blocks
    induction blocks with
    | nil => exact fun _ _ h => h
    | cons block blocks ih =>
      intro r hnames hr
      exact ih _ (fun block hblock => hnames block (List.mem_cons_of_mem _ hblock))
        (emitBlock_leveled page (hnames block List.mem_cons_self) hr)
  unfold mapHtml at h
  dsimp only at h
  split at h
  · cases h
  · cases h
    refine leveled_congr ?_ (headerLevels_finalize page _)
    exact hblocks _ _ (fun block hblock => elements_name hblock) (by rintro _ ⟨⟩)

end Levels

end VlmConvert.L3.Html

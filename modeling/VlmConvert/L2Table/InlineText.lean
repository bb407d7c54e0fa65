import VlmConvert.L1Text.EmphasisSpans
import VlmConvert.L2Table.HtmlTable

/-!
# The text of inline HTML

What `html_text` (`src/mapping/layout.cpp`) reads from the HTML that
`markdown_inline_html` writes for paragraphs of text, line breaks and emphasis.
Each byte of text is escaped once by the renderer and decoded once by the
parser; a line break and the end of a paragraph read as a newline, emphasis
as nothing. Newlines and blanks are then one blank (`collapseWhitespace`).

Results:

* `parseMarkup_paragraphs`: the text of rendered paragraphs.
* `SameWords`: texts that collapse alike wherever they stand.
-/
namespace VlmConvert.L2

open Bytes L1

/-! ## Chunks -/

/-- What a paragraph is written with: a byte of text, a line break (hard behind
two blanks), a tag of emphasis. -/
inductive Chunk
  | byte (c : UInt8)
  | lineBreak (hard : Bool)
  | emphasis (close strong : Bool)
  deriving DecidableEq, Repr

/-- As `render_paragraph` writes it. -/
def Chunk.html : Chunk → Bytes
  | .byte c => escapeByte c
  | .lineBreak hard => if hard then ascii "<br />\n" else [0x0A]
  | .emphasis false strong => openTagOf (if strong then 2 else 1)
  | .emphasis true strong => closeTagOf (if strong then 2 else 1)

/-- As `markdown_inline_html` returns it. -/
def Chunk.inline : Chunk → Bytes
  | .lineBreak _ => ascii "<br>"
  | chunk => chunk.html

def Chunk.shown : Chunk → Bytes
  | .byte c => [c]
  | .lineBreak _ => [0x0A]
  | .emphasis .. => []

def Chunk.isOpenTag : Chunk → Bool
  | .emphasis false _ => true
  | _ => false

/-- A newline is a line break, not a byte of text. -/
def Chunk.proper : Chunk → Bool
  | .byte c => c != 0x0A
  | _ => true

theorem escapeByte_free (c : UInt8) : 0x3C ∉ escapeByte c ∧ (c ≠ 0x0A → 0x0A ∉ escapeByte c) := by
  unfold escapeByte
  split
  · exact ⟨by decide, fun _ => by decide⟩
  split
  · exact ⟨by decide, fun _ => by decide⟩
  rename_i hlt
  split
  · exact ⟨by decide, fun _ => by decide⟩
  split
  · exact ⟨by decide, fun _ => by decide⟩
  · refine ⟨fun hmem => hlt ?_, fun hc hmem => hc (List.mem_singleton.1 hmem).symm⟩
    rw [← List.mem_singleton.1 hmem]
    rfl

/-- The tags of a chunk other than a line break start no line break. -/
theorem skips_tags (close strong : Bool) :
    Skips (ascii "<br />\n") (Chunk.emphasis close strong).html ∧
    0x0A ∉ (Chunk.emphasis close strong).html := by
  cases close <;> cases strong
  all_goals exact ⟨skips_of_head rfl (fun _ => rfl) (by decide), by decide⟩

/-! ## Line breaks -/

theorem breakLines_copy {l : Bytes} (rest : Bytes) : Skips (ascii "<br />\n") l → 0x0A ∉ l →
    breakLines 0 (l ++ rest) = l ++ breakLines 0 rest := by
  induction l with
  | nil => intro _ _; rfl
  | cons c l ih =>
    intro hskips hnewline
    have hno : ¬(ascii "<br />\n").isPrefixOf (c :: (l ++ rest)) = true := by
      rw [List.isPrefixOf_iff_prefix]
      exact hskips [] (c :: l) rfl (by simp) rest
    have hc : ¬(c == 0x0A) = true :=
      fun he => hnewline (by rw [beq_iff_eq.1 he]; exact List.mem_cons_self)
    rw [List.cons_append, breakLines, if_neg hno, if_neg hc,
      ih (fun before after heq => hskips (c :: before) after (by rw [heq]; rfl))
        fun hmem => hnewline (List.mem_cons_of_mem c hmem)]
    rfl

theorem breakLines_chunks {chunks : List Chunk} (rest : Bytes)
    (h : ∀ chunk ∈ chunks, chunk.proper = true) :
    breakLines 0 (chunks.flatMap Chunk.html ++ rest) =
      chunks.flatMap Chunk.inline ++ breakLines 0 rest := by
  induction chunks with
  | nil => rfl
  | cons chunk chunks ih =>
    have htail := ih fun c hc => h c (List.mem_cons_of_mem chunk hc)
    rw [List.flatMap_cons, List.flatMap_cons, List.append_assoc, List.append_assoc, ← htail]
    cases chunk with
    | byte c =>
      obtain ⟨hlt, hnewline⟩ := escapeByte_free c
      have hc : c ≠ 0x0A := by simpa [Chunk.proper] using h _ List.mem_cons_self
      exact breakLines_copy _ (skips_of_notMem rfl hlt) (hnewline hc)
    | lineBreak hard => cases hard <;> rfl
    | emphasis close strong =>
      obtain ⟨hskips, hnewline⟩ := skips_tags close strong
      cases close <;> exact breakLines_copy _ hskips hnewline

/-! ## The text of an element tree under construction -/

theorem htmlTextIn_append (l m : List MarkupNode) :
    htmlTextIn (l ++ m) = htmlTextIn l ++ htmlTextIn m := by
  induction l with
  | nil => rfl
  | cons node l ih => simp only [List.cons_append, htmlTextIn, ih, List.append_assoc]

theorem htmlTextIn_extendText (nodes : List MarkupNode) (raw : Bytes) :
    htmlTextIn (extendText nodes raw) = htmlTextIn nodes ++ decodeEntities raw := by
  have hlast : ∀ t : Bytes, htmlTextIn [MarkupNode.text t] = t := by
    intro t
    simp [htmlTextIn, htmlText, MarkupNode.isText]
  unfold extendText
  split
  · rename_i t hlast'
    obtain ⟨init, rfl⟩ := List.getLast?_eq_some_iff.1 hlast'
    rw [List.dropLast_concat, htmlTextIn_append, htmlTextIn_append, hlast, hlast, List.append_assoc]
  · rw [htmlTextIn_append, hlast]

/-- The text of what is read so far. -/
def shownText (b : Builder) : Bytes :=
  htmlTextIn b.root ++ b.frames.reverse.flatMap fun f => htmlTextIn f.children

theorem shownText_addChild (b : Builder) (node : MarkupNode) :
    shownText (b.addChild node) = shownText b ++ htmlTextIn [node] := by
  obtain ⟨frames, root⟩ := b
  cases frames with
  | nil => simp [shownText, Builder.addChild, htmlTextIn_append]
  | cons f frames => simp [shownText, Builder.addChild, htmlTextIn_append]

theorem shownText_text (b : Builder) (raw : Bytes) :
    shownText (b.text raw) = shownText b ++ decodeEntities raw := by
  obtain ⟨frames, root⟩ := b
  unfold Builder.text
  split
  · rename_i hraw
    rw [List.isEmpty_iff.1 hraw]
    exact (List.append_nil _).symm
  · cases frames with
    | nil => simp [shownText, htmlTextIn_extendText]
    | cons f frames => simp [shownText, htmlTextIn_extendText]

theorem frames_text (b : Builder) (raw : Bytes) :
    (b.text raw).frames.map Frame.tag = b.frames.map Frame.tag := by
  obtain ⟨frames, root⟩ := b
  unfold Builder.text
  split
  · rfl
  · cases frames with
    | nil => rfl
    | cons f frames => rfl

/-- The newline behind an element. -/
def newlineBehind (tag : Bytes) : Bytes := if decide (tag ∈ kHtmlBlockTags) then [0x0A] else []

theorem htmlTextIn_element {tag : Bytes} (htag : tag ≠ ascii "br" ∧ tag ≠ ascii "input")
    (attrs : List (Bytes × Bytes)) (children : List MarkupNode) :
    htmlTextIn [.element tag attrs children] = htmlTextIn children ++ newlineBehind tag := by
  by_cases hblock : tag ∈ kHtmlBlockTags
  all_goals simp [htmlTextIn, htmlText, MarkupNode.isText, MarkupNode.tag, newlineBehind, htag.1,
    htag.2, hblock]

theorem shownText_pop {b : Builder} {f : Frame} {frames : List Frame}
    (hframes : b.frames = f :: frames)
    (htag : f.tag ≠ ascii "br" ∧ f.tag ≠ ascii "input") :
    shownText b.pop = shownText b ++ newlineBehind f.tag ∧
      b.pop.frames.map Frame.tag = frames.map Frame.tag := by
  obtain ⟨bframes, root⟩ := b
  cases hframes
  refine ⟨?_, ?_⟩
  · show shownText (Builder.addChild ⟨frames, root⟩ (.element f.tag f.attrs f.children)) = _
    rw [shownText_addChild, htmlTextIn_element htag]
    simp [shownText]
  · cases frames with
    | nil => rfl
    | cons g frames => rfl

/-! ## One paragraph -/

/-- The open elements: emphasis inside a paragraph. -/
structure InParagraph (b : Builder) : Prop where
  tags : ∃ inner, b.frames.map Frame.tag = inner ++ [ascii "p"] ∧
    ∀ tag ∈ inner, tag = ascii "em" ∨ tag = ascii "strong"

theorem InParagraph.text {b : Builder} (h : InParagraph b) (raw : Bytes) :
    InParagraph (b.text raw) :=
  ⟨by rw [frames_text]; exact h.tags⟩

/-- Emphasis leaves without a trace. -/
theorem popN_inner : ∀ (n : Nat) {b : Builder} {inner rest : List Bytes},
    b.frames.map Frame.tag = inner ++ rest → inner.length = n →
    (∀ tag ∈ inner, tag = ascii "em" ∨ tag = ascii "strong") →
    shownText (b.popN n) = shownText b ∧ (b.popN n).frames.map Frame.tag = rest := by
  intro n
  induction n with
  | zero =>
    intro b inner rest htags hlen _
    rw [List.length_eq_zero_iff.1 hlen] at htags
    exact ⟨rfl, htags⟩
  | succ n ih =>
    intro b inner rest htags hlen hinner
    cases inner with
    | nil => cases hlen
    | cons tag inner =>
      obtain ⟨f, frames, hframes⟩ : ∃ f frames, b.frames = f :: frames := by
        cases hb : b.frames with
        | nil => rw [hb] at htags; cases htags
        | cons f frames => exact ⟨f, frames, rfl⟩
      rw [hframes, List.map_cons, List.cons_append, List.cons.injEq] at htags
      have hkind := hinner tag List.mem_cons_self
      have htag : f.tag ≠ ascii "br" ∧ f.tag ≠ ascii "input" ∧ newlineBehind f.tag = [] := by
        rw [htags.1]
        rcases hkind with rfl | rfl <;> decide
      obtain ⟨hshown, hpop⟩ := shownText_pop hframes ⟨htag.1, htag.2.1⟩
      obtain ⟨hshown', hrest⟩ := ih (hpop.trans htags.2) (Nat.succ.inj hlen)
        fun t ht => hinner t (List.mem_cons_of_mem tag ht)
      refine ⟨?_, hrest⟩
      show shownText (Builder.popN n b.pop) = _
      rw [hshown', hshown, htag.2.2, List.append_nil]

theorem findIdx?_frames (frames : List Frame) (name : Bytes) :
    frames.findIdx? (·.tag == name) = (frames.map Frame.tag).findIdx? (· == name) := by
  rw [List.findIdx?_map]
  rfl

/-- An emphasis tag changes the stack only. -/
theorem InParagraph.openTag {b : Builder} (h : InParagraph b) {name : Bytes}
    (hname : name = ascii "em" ∨ name = ascii "strong") :
    InParagraph (b.openTag .html ⟨name, false, false, []⟩) ∧
      shownText (b.openTag .html ⟨name, false, false, []⟩) = shownText b := by
  have himplicit : b.implicitClose name = b := by
    rcases hname with rfl | rfl <;> rfl
  have hvoid : name ∉ kVoidTags ∧ newlineBehind name = [] ∧ name ≠ ascii "br" ∧
    name ≠ ascii "input" := by
    rcases hname with rfl | rfl <;> decide
  obtain ⟨inner, htags, hinner⟩ := h.tags
  have hframe : htmlTextIn [MarkupNode.element name [] []] = [] := by
    rw [htmlTextIn_element hvoid.2.2, hvoid.2.1]
    rfl
  unfold Builder.openTag
  dsimp only
  rw [if_pos rfl, himplicit, show decide (name ∈ kVoidTags) = false by simp [hvoid.1]]
  split
  · refine ⟨⟨name :: inner, ?_, ?_⟩, ?_⟩
    · show name :: b.frames.map Frame.tag = _
      rw [htags]
      rfl
    · intro tag htag
      rcases List.mem_cons.1 htag with rfl | htag
      · exact hname
      · exact hinner tag htag
    · simp [shownText, htmlTextIn]
  · refine ⟨⟨inner, ?_, hinner⟩, ?_⟩
    · rw [← htags]
      obtain ⟨frames, root⟩ := b
      cases frames <;> rfl
    · rw [shownText_addChild, hframe, List.append_nil]

theorem InParagraph.closeTag {b : Builder} (h : InParagraph b) {name : Bytes}
    (hname : name = ascii "em" ∨ name = ascii "strong") :
    InParagraph (b.closeTag name) ∧ shownText (b.closeTag name) = shownText b := by
  obtain ⟨inner, htags, hinner⟩ := h.tags
  unfold Builder.closeTag
  rw [findIdx?_frames, htags, List.findIdx?_append]
  cases hfind : inner.findIdx? (· == name) with
  | none =>
    have hp : [ascii "p"].findIdx? (· == name) = none := by
      rcases hname with rfl | rfl <;> decide
    rw [hp]
    exact ⟨h, rfl⟩
  | some i =>
    have hi : i < inner.length := (List.findIdx?_eq_some_iff_getElem.1 hfind).1
    have hsplit : b.frames.map Frame.tag =
      inner.take (i + 1) ++ (inner.drop (i + 1) ++ [ascii "p"]) := by
      rw [htags, ← List.append_assoc, List.take_append_drop]
    obtain ⟨hshown, hrest⟩ := popN_inner (i + 1) hsplit (by rw [List.length_take]; omega)
      fun tag htag => hinner tag (List.mem_of_mem_take htag)
    exact ⟨⟨_, hrest, fun tag htag => hinner tag (List.mem_of_mem_drop htag)⟩, hshown⟩

/-- The end of a paragraph closes what is open, and reads as a newline. -/
theorem InParagraph.close {b : Builder} (h : InParagraph b) :
    (b.closeTag (ascii "p")).frames = [] ∧
      shownText (b.closeTag (ascii "p")) = shownText b ++ [0x0A] := by
  obtain ⟨inner, htags, hinner⟩ := h.tags
  have hfind : inner.findIdx? (· == ascii "p") = none := by
    rw [List.findIdx?_eq_none_iff]
    intro tag htag
    rcases hinner tag htag with rfl | rfl <;> decide
  have hindex : (inner ++ [ascii "p"]).findIdx? (· == ascii "p") = some inner.length := by
    rw [List.findIdx?_append, hfind]
    simp
  have hpops : ∀ (n : Nat) (b : Builder), b.popN (n + 1) = (b.popN n).pop := by
    intro n
    induction n with
    | zero => intro b; rfl
    | succ n ih => intro b; exact ih b.pop
  unfold Builder.closeTag
  rw [findIdx?_frames, htags, hindex]
  dsimp only
  obtain ⟨hshown, hrest⟩ := popN_inner inner.length htags rfl hinner
  obtain ⟨f, hframes, hf⟩ : ∃ f, (b.popN inner.length).frames = [f] ∧ f.tag = ascii "p" := by
    cases hb : (b.popN inner.length).frames with
    | nil => rw [hb] at hrest; cases hrest
    | cons f frames =>
      rw [hb, List.map_cons, List.cons.injEq] at hrest
      exact ⟨f, by rw [List.map_eq_nil_iff.1 hrest.2], hrest.1⟩
  obtain ⟨hpop, hempty⟩ := shownText_pop hframes (by rw [hf]; decide)
  rw [hpops]
  refine ⟨List.map_eq_nil_iff.1 hempty, ?_⟩
  rw [hpop, hshown, hf]
  rfl

theorem decodes_escapeByte : Decodes escapeByte := by
  intro c
  unfold escapeByte
  split
  · rename_i h
    exact Or.inr ⟨ascii "amp", rfl, by decide, by decide, by rw [beq_iff_eq.1 h]; decide⟩
  rename_i hamp
  split
  · rename_i h
    exact Or.inr ⟨ascii "lt", rfl, by decide, by decide, by rw [beq_iff_eq.1 h]; decide⟩
  split
  · rename_i h
    exact Or.inr ⟨ascii "gt", rfl, by decide, by decide, by rw [beq_iff_eq.1 h]; decide⟩
  split
  · rename_i h
    exact Or.inr ⟨ascii "quot", rfl, by decide, by decide, by rw [beq_iff_eq.1 h]; decide⟩
  · exact Or.inl ⟨rfl, fun he => hamp (beq_iff_eq.2 he)⟩

theorem notMem_escaped (text : Bytes) : 0x3C ∉ text.flatMap escapeByte := by
  rw [List.mem_flatMap]
  rintro ⟨c, -, hmem⟩
  exact (escapeByte_free c).1 hmem

/-- A tag of emphasis as the parser reads it. -/
def emphasisName (strong : Bool) : Bytes := if strong then ascii "strong" else ascii "em"

theorem reads_emphasis (close strong : Bool) :
    Reads .html (Chunk.emphasis close strong).html ⟨emphasisName strong, close, false, []⟩ := by
  cases close <;> cases strong
  all_goals exact ⟨by decide, by decide, fun _ => rfl⟩

theorem emphasisName_eq (strong : Bool) :
    emphasisName strong = ascii "em" ∨ emphasisName strong = ascii "strong" := by
  cases strong
  · exact Or.inl rfl
  · exact Or.inr rfl

theorem reads_br : Reads .html (ascii "<br>") ⟨ascii "br", false, false, []⟩ :=
  ⟨by decide, by decide, fun _ => rfl⟩

theorem reads_p : Reads .html (ascii "<p>") ⟨ascii "p", false, false, []⟩ :=
  ⟨by decide, by decide, fun _ => rfl⟩

theorem reads_close_p : Reads .html (ascii "</p>") ⟨ascii "p", true, false, []⟩ :=
  ⟨by decide, by decide, fun _ => rfl⟩

/-- The rest of a paragraph, behind `text` that is not handed over yet. -/
theorem parseRest_chunks (rest : Bytes) : ∀ {chunks : List Chunk} {b : Builder} (text : Bytes),
    InParagraph b → ∃ b', b'.frames = [] ∧
      shownText b' = shownText b ++ text ++ chunks.flatMap Chunk.shown ++ [0x0A] ∧
      parseRest .html b []
        (text.flatMap escapeByte ++ (chunks.flatMap Chunk.inline ++ (ascii "</p>" ++ rest))) =
        parseRest .html b' [] rest := by
  intro chunks
  induction chunks with
  | nil =>
    intro b text h
    obtain ⟨hframes, hshown⟩ := (h.text (text.flatMap escapeByte)).close
    refine ⟨_, hframes, ?_, parseRest_tag (notMem_escaped text) reads_close_p rfl⟩
    rw [hshown, shownText_text, decodeEntities_escaped decodes_escapeByte]
    simp
  | cons chunk chunks ih =>
    intro b text h
    have htext : shownText (b.text (text.flatMap escapeByte)) = shownText b ++ text := by
      rw [shownText_text, decodeEntities_escaped decodes_escapeByte]
    have hin := h.text (text.flatMap escapeByte)
    cases chunk with
    | byte c =>
      obtain ⟨b', hframes, hshown, hparse⟩ := ih (text ++ [c]) h
      refine ⟨b', hframes, ?_, ?_⟩
      · rw [hshown]
        simp [Chunk.shown]
      · rw [← hparse]
        simp [Chunk.inline, Chunk.html]
    | lineBreak hard =>
      have hbr : (b.text (text.flatMap escapeByte)).apply .html ⟨ascii "br", false, false, []⟩ =
          (b.text (text.flatMap escapeByte)).addChild (.element (ascii "br") [] []) := rfl
      have hin' : InParagraph
        ((b.text (text.flatMap escapeByte)).addChild (.element (ascii "br") [] [])) := by
        obtain ⟨inner, htags, hinner⟩ := hin.tags
        refine ⟨inner, ?_, hinner⟩
        rw [← htags]
        generalize b.text (text.flatMap escapeByte) = b0
        obtain ⟨frames, root⟩ := b0
        cases frames <;> rfl
      obtain ⟨b', hframes, hshown, hparse⟩ := ih [] hin'
      refine ⟨b', hframes, ?_, ?_⟩
      · rw [hshown, shownText_addChild, htext]
        simp [Chunk.shown, htmlTextIn, htmlText, MarkupNode.isText, MarkupNode.tag,
          kHtmlBlockTags, ascii]
      · rw [← hparse, List.flatMap_cons, List.append_assoc]
        exact (parseRest_tag (notMem_escaped text) reads_br rfl).trans (by rw [hbr]; rfl)
    | emphasis close strong =>
      have hname := emphasisName_eq strong
      have hplain : (emphasisName strong == ascii "script" ||
        emphasisName strong == ascii "style") = false := by
        cases strong <;> decide
      have hstep : InParagraph ((b.text (text.flatMap escapeByte)).apply .html
          ⟨emphasisName strong, close, false, []⟩) ∧
          shownText ((b.text (text.flatMap escapeByte)).apply .html ⟨emphasisName strong, close,
            false, []⟩) =
            shownText b ++ text := by
        rw [← htext]
        cases close with
        | false => exact hin.openTag hname
        | true => exact hin.closeTag hname
      obtain ⟨b', hframes, hshown, hparse⟩ := ih [] hstep.1
      refine ⟨b', hframes, ?_, ?_⟩
      · rw [hshown, hstep.2]
        simp [Chunk.shown]
      · rw [← hparse, List.flatMap_cons, List.append_assoc]
        have hinline : (Chunk.emphasis close strong).inline =
          (Chunk.emphasis close strong).html := by
          cases close <;> rfl
        rw [hinline]
        exact parseRest_tag (notMem_escaped text) (reads_emphasis close strong) hplain

/-! ## Paragraphs -/

/-- A paragraph as it is rendered. -/
def paragraphHtml (chunks : List Chunk) : Bytes :=
  ascii "<p>" ++ chunks.flatMap Chunk.html ++ ascii "</p>\n"

/-- Paragraphs as `markdown_inline_html` returns them, in front of a rest. -/
def paragraphsInline : List (List Chunk) → Bytes
  | [] => []
  | [chunks] => ascii "<p>" ++ (chunks.flatMap Chunk.inline ++ ascii "</p>")
  | chunks :: more =>
    ascii "<p>" ++
      (chunks.flatMap Chunk.inline ++ (ascii "</p>" ++ (ascii "<br>" ++ paragraphsInline more)))

/-- What paragraphs show: each ends in a newline, and so does the line break
between two. -/
def paragraphsShown : List (List Chunk) → Bytes
  | [] => []
  | [chunks] => chunks.flatMap Chunk.shown ++ [0x0A]
  | chunks :: more => chunks.flatMap Chunk.shown ++ [0x0A] ++ ([0x0A] ++ paragraphsShown more)

/-- Paragraphs as they are rendered, without the last newline. -/
def paragraphsHtml : List (List Chunk) → Bytes
  | [] => []
  | [chunks] => ascii "<p>" ++ (chunks.flatMap Chunk.html ++ ascii "</p>")
  | chunks :: more =>
    ascii "<p>" ++ (chunks.flatMap Chunk.html ++ (ascii "</p>" ++ (0x0A :: paragraphsHtml more)))

theorem flatMap_paragraphHtml : ∀ {paragraphs : List (List Chunk)}, paragraphs ≠ [] →
    paragraphs.flatMap paragraphHtml = paragraphsHtml paragraphs ++ [0x0A] := by
  intro paragraphs
  induction paragraphs with
  | nil => intro h; exact absurd rfl h
  | cons chunks more ih =>
    intro _
    have hclose : ascii "</p>\n" = ascii "</p>" ++ [0x0A] := by decide
    cases more with
    | nil => simp [paragraphHtml, paragraphsHtml, hclose]
    | cons next more =>
      rw [List.flatMap_cons, ih (List.cons_ne_nil _ _)]
      simp [paragraphHtml, paragraphsHtml, hclose]

theorem trim_paragraphs {paragraphs : List (List Chunk)} (h : paragraphs ≠ []) :
    trim (paragraphs.flatMap paragraphHtml) = paragraphsHtml paragraphs := by
  have hstart : ∃ l, paragraphsHtml paragraphs = 0x3C :: l := by
    match paragraphs, h with
    | [chunks], _ => exact ⟨_, rfl⟩
    | chunks :: next :: more, _ => exact ⟨_, rfl⟩
  have hend : ∀ {ps : List (List Chunk)}, ps ≠ [] → ∃ l, paragraphsHtml ps = l ++ [0x3E] := by
    intro ps
    induction ps with
    | nil => intro hne; exact absurd rfl hne
    | cons chunks more ih =>
      intro _
      cases more with
      | nil =>
        exact ⟨ascii "<p>" ++ (chunks.flatMap Chunk.html ++ ascii "</p"),
          by simp [paragraphsHtml, ascii]⟩
      | cons next more =>
        obtain ⟨l, hl⟩ := ih (List.cons_ne_nil _ _)
        exact ⟨ascii "<p>" ++ (chunks.flatMap Chunk.html ++ (ascii "</p>" ++ (0x0A :: l))),
          by simp [paragraphsHtml, hl]⟩
  obtain ⟨l, hl⟩ := hstart
  obtain ⟨l', hl'⟩ := hend h
  rw [flatMap_paragraphHtml h, trim]
  have hdrop : (paragraphsHtml paragraphs ++ [0x0A]).dropWhile isBlank =
    paragraphsHtml paragraphs ++ [0x0A] := by
    rw [hl]
    rfl
  rw [hdrop, List.rdropWhile_concat_pos _ _ _ rfl, hl',
    List.rdropWhile_concat_neg _ _ _ (by decide)]

theorem breakLines_paragraphs : ∀ {paragraphs : List (List Chunk)},
    (∀ chunks ∈ paragraphs, ∀ chunk ∈ chunks, chunk.proper = true) →
    breakLines 0 (paragraphsHtml paragraphs) = paragraphsInline paragraphs := by
  have hopen : ∀ rest, breakLines 0 (ascii "<p>" ++ rest) = ascii "<p>" ++ breakLines 0 rest :=
    fun rest => breakLines_copy rest (skips_of_head rfl (fun _ => rfl) (by decide)) (by decide)
  have hclose : ∀ rest, breakLines 0 (ascii "</p>" ++ rest) = ascii "</p>" ++ breakLines 0 rest :=
    fun rest => breakLines_copy rest (skips_of_head rfl (fun _ => rfl) (by decide)) (by decide)
  intro paragraphs
  induction paragraphs with
  | nil => intro _; rfl
  | cons chunks more ih =>
    intro h
    have hchunks := h chunks List.mem_cons_self
    cases more with
    | nil =>
      have hlast := hclose []
      rw [List.append_nil] at hlast
      rw [paragraphsHtml, hopen, breakLines_chunks _ hchunks, hlast]
      rfl
    | cons next more =>
      have hrest := ih fun c hc => h c (List.mem_cons_of_mem chunks hc)
      show breakLines 0 (ascii "<p>" ++ (chunks.flatMap Chunk.html ++
        (ascii "</p>" ++ (0x0A :: paragraphsHtml (next :: more))))) = ascii "<p>" ++
        (chunks.flatMap Chunk.inline ++
        (ascii "</p>" ++ (ascii "<br>" ++ paragraphsInline (next :: more))))
      rw [hopen, breakLines_chunks _ hchunks, hclose, ← hrest]
      rfl

/-- The parser at the start of a paragraph. -/
theorem parseRest_paragraph (b : Builder) (hb : b.frames = []) (chunks : List Chunk)
    (rest : Bytes) :
    ∃ b', b'.frames = [] ∧ shownText b' = shownText b ++ (chunks.flatMap Chunk.shown ++ [0x0A]) ∧
      parseRest .html b []
        (ascii "<p>" ++ (chunks.flatMap Chunk.inline ++ (ascii "</p>" ++ rest))) =
        parseRest .html b' [] rest := by
  obtain ⟨frames, root⟩ := b
  cases hb
  have hopen : (Builder.text ⟨[], root⟩ []).apply .html ⟨ascii "p", false, false, []⟩ =
      ⟨[⟨ascii "p", [], []⟩], root⟩ := rfl
  have hin : InParagraph ⟨[⟨ascii "p", [], []⟩], root⟩ := ⟨[], rfl, nofun⟩
  obtain ⟨b', hframes, hshown, hparse⟩ := @parseRest_chunks rest chunks _ [] hin
  refine ⟨b', hframes, ?_, ?_⟩
  · rw [hshown]
    simp [shownText, htmlTextIn]
  · have htag :=
      @parseRest_tag .html ⟨[], root⟩ [] _ (chunks.flatMap Chunk.inline ++ (ascii "</p>" ++ rest)) _
      List.not_mem_nil reads_p rfl
    rw [hopen] at htag
    exact htag.trans hparse

theorem parseRest_paragraphs : ∀ (paragraphs : List (List Chunk)) (b : Builder), b.frames = [] →
    ∃ b', b'.frames = [] ∧ shownText b' = shownText b ++ paragraphsShown paragraphs ∧
      parseRest .html b [] (paragraphsInline paragraphs) = b' := by
  intro paragraphs
  induction paragraphs with
  | nil =>
    intro b hb
    exact ⟨b, hb, (List.append_nil _).symm, rfl⟩
  | cons chunks more ih =>
    intro b hb
    cases more with
    | nil =>
      obtain ⟨b', hframes, hshown, hparse⟩ := parseRest_paragraph b hb chunks []
      rw [List.append_nil] at hparse
      exact ⟨b', hframes, hshown, hparse⟩
    | cons next more =>
      obtain ⟨b1, hframes1, hshown1, hparse1⟩ := parseRest_paragraph b hb chunks
        (ascii "<br>" ++ paragraphsInline (next :: more))
      have hbr := @parseRest_tag .html b1 [] _ (paragraphsInline (next :: more)) _
        List.not_mem_nil reads_br rfl
      obtain ⟨frames, root⟩ := b1
      cases hframes1
      obtain ⟨b', hframes, hshown, hparse⟩ := ih ⟨[], root ++ [.element (ascii "br") [] []]⟩ rfl
      refine ⟨b', hframes, ?_, hparse1.trans (hbr.trans hparse)⟩
      rw [hshown]
      have hlast : shownText ⟨[], root ++ [.element (ascii "br") [] []]⟩ =
        shownText ⟨[], root⟩ ++ [0x0A] := by
        have hadd := shownText_addChild ⟨[], root⟩ (.element (ascii "br") [] [])
        exact hadd
      rw [hlast, hshown1]
      simp [paragraphsShown]

/-- What paragraphs show, each with the newlines behind it. -/
def shownParagraphs (paragraphs : List (List Chunk)) : Bytes :=
  paragraphs.flatMap fun chunks => chunks.flatMap Chunk.shown ++ [0x0A, 0x0A]

theorem shownParagraphs_eq : ∀ {paragraphs : List (List Chunk)}, paragraphs ≠ [] →
    shownParagraphs paragraphs = paragraphsShown paragraphs ++ [0x0A] := by
  intro paragraphs
  induction paragraphs with
  | nil => intro h; exact absurd rfl h
  | cons chunks more ih =>
    intro _
    cases more with
    | nil => simp [shownParagraphs, paragraphsShown]
    | cons next more =>
      have hrest := ih (List.cons_ne_nil _ _)
      rw [shownParagraphs, List.flatMap_cons, ← shownParagraphs, hrest]
      simp [paragraphsShown]

/-- **Rendered paragraphs read back as they were written**: every byte once. -/
theorem parseMarkup_paragraphs (paragraphs : List (List Chunk)) :
    htmlText (parseMarkup .html (paragraphsInline paragraphs)) = paragraphsShown paragraphs := by
  obtain ⟨b', hframes, hshown, hparse⟩ := parseRest_paragraphs paragraphs ⟨[], []⟩ rfl
  have htake : parseMarkup .html (paragraphsInline paragraphs) = b'.take := by
    rw [parseMarkup, ← hparse]
    rfl
  obtain ⟨frames, root⟩ := b'
  cases hframes
  rw [htake]
  show htmlTextIn root = _
  have hroot : shownText ⟨[], root⟩ = htmlTextIn root := List.append_nil _
  rw [← hroot, hshown]
  rfl

/-- Text without tags is decoded. -/
theorem parseMarkup_data {text : Bytes} (h : 0x3C ∉ text) :
    htmlText (parseMarkup .html text) = decodeEntities text := by
  have hparse : parseMarkup .html text = (Builder.text ⟨[], []⟩ text).take := by
    rw [parseMarkup]
    cases text with
    | nil => rfl
    | cons c text =>
      rw [List.length_cons, parseLoop, findByte_none h]
      rfl
  have hshown := shownText_text ⟨[], []⟩ text
  rw [hparse]
  unfold Builder.text at hshown ⊢
  split
  · rename_i hempty
    rw [List.isEmpty_iff.1 hempty]
    rfl
  · rename_i hempty
    rw [if_neg hempty] at hshown
    exact (List.append_nil _).symm.trans hshown

/-! ## Whether emphasis is found -/

/-- The tags the renderer looks for. -/
def foundEmphasis (rendered : Bytes) : Bool :=
  (findSub (ascii "<strong>") rendered).isSome || (findSub (ascii "<em>") rendered).isSome

theorem skips_chunk {chunk : Chunk} (h : chunk.isOpenTag = false) :
    Skips (ascii "<strong>") chunk.html ∧ Skips (ascii "<em>") chunk.html := by
  cases chunk with
  | byte c =>
    have hlt := (escapeByte_free c).1
    exact ⟨skips_of_notMem rfl hlt, skips_of_notMem rfl hlt⟩
  | lineBreak hard =>
    cases hard
    all_goals exact ⟨skips_of_head rfl (fun _ => rfl) (by decide),
      skips_of_head rfl (fun _ => rfl) (by decide)⟩
  | emphasis close strong =>
    cases close with
    | false => cases h
    | true =>
      cases strong
      all_goals exact ⟨skips_of_head rfl (fun _ => rfl) (by decide),
        skips_of_head rfl (fun _ => rfl) (by decide)⟩

theorem skips_paragraph {needle : Bytes}
    (hneedle : needle = ascii "<strong>" ∨ needle = ascii "<em>")
    {chunks : List Chunk} (h : chunks.any Chunk.isOpenTag = false) :
    Skips needle (paragraphHtml chunks) := by
  have hchunks : Skips needle (chunks.flatMap Chunk.html) := by
    refine Skips.flatMap fun chunk hchunk => ?_
    have hopen : chunk.isOpenTag = false := by
      have := List.any_eq_false.1 h chunk hchunk
      simpa using this
    rcases hneedle with rfl | rfl
    · exact (skips_chunk hopen).1
    · exact (skips_chunk hopen).2
  have htags : Skips needle (ascii "<p>") ∧ Skips needle (ascii "</p>\n") := by
    rcases hneedle with rfl | rfl
    all_goals exact ⟨skips_of_head rfl (fun _ => rfl) (by decide),
      skips_of_head rfl (fun _ => rfl) (by decide)⟩
  exact (htags.1.append hchunks).append htags.2

/-- The tags are found where a chunk opens emphasis. -/
theorem foundEmphasis_eq (ps : List (List Chunk)) : foundEmphasis (ps.flatMap paragraphHtml) =
    ps.any fun chunks => chunks.any Chunk.isOpenTag := by
  cases hopen : ps.any fun chunks => chunks.any Chunk.isOpenTag with
  | false =>
    have hnone : ∀ needle, needle = ascii "<strong>" ∨ needle = ascii "<em>" →
        findSub needle (ps.flatMap paragraphHtml) = none := by
      intro needle hneedle
      refine findSub_none (Skips.flatMap fun chunks hchunks => skips_paragraph hneedle ?_)
      have := List.any_eq_false.1 hopen chunks hchunks
      simpa using this
    rw [foundEmphasis, hnone _ (Or.inl rfl), hnone _ (Or.inr rfl)]
    rfl
  | true =>
    obtain ⟨chunks, hchunks, hany⟩ := List.any_eq_true.1 hopen
    obtain ⟨chunk, hchunk, htag⟩ := List.any_eq_true.1 hany
    have hinfix : chunk.html <:+: ps.flatMap paragraphHtml := by
      have hinner : chunk.html <:+: chunks.flatMap Chunk.html := infix_flatMap hchunk Chunk.html
      have hparagraph : chunks.flatMap Chunk.html <:+: paragraphHtml chunks :=
        ⟨ascii "<p>", ascii "</p>\n", rfl⟩
      exact hinner.trans (hparagraph.trans (infix_flatMap hchunks paragraphHtml))
    have hsome : ∀ needle, needle ≠ [] → chunk.html = needle →
        (findSub needle (ps.flatMap paragraphHtml)).isSome = true := by
      intro needle hne heq
      rw [Option.isSome_iff_ne_none]
      intro hnone
      rw [heq] at hinfix
      exact not_infix_of_findSub hne hnone hinfix
    cases chunk with
    | byte c => cases htag
    | lineBreak hard => cases htag
    | emphasis close strong =>
      cases close with
      | true => cases htag
      | false =>
        cases strong with
        | false => rw [foundEmphasis, hsome (ascii "<em>") (by decide) rfl, Bool.or_true]
        | true => rw [foundEmphasis, hsome (ascii "<strong>") (by decide) rfl, Bool.true_or]

theorem markdownInlineHtml_eq (text : Bytes) : markdownInlineHtml text =
    if !text.contains 0x2A && !text.contains 0x5F then text
    else if foundEmphasis (renderLines [] (text.splitOn 0x0A)) then
      breakLines 0 (trim (renderLines [] (text.splitOn 0x0A)))
    else unescapeMarkdownLiterals text := by
  unfold markdownInlineHtml foundEmphasis
  split
  · rfl
  · cases hstrong : findSub (ascii "<strong>") (renderLines [] (text.splitOn 0x0A)) with
    | none =>
      cases hem : findSub (ascii "<em>") (renderLines [] (text.splitOn 0x0A)) <;>
        simp [hstrong, hem]
    | some r => simp [hstrong]

/-! ## Whitespace -/

def collapseStep (s : Bytes × Bool) (c : UInt8) : Bytes × Bool :=
  if isSpace c then (s.1, !s.1.isEmpty) else (s.1 ++ (if s.2 then [0x20, c] else [c]), false)

theorem collapseWhitespace_eq (text : Bytes) :
    collapseWhitespace text = (text.foldl collapseStep ([], false)).1 := rfl

/-- Texts that collapse alike wherever they stand. -/
def SameWords (a b : Bytes) : Prop := ∀ s, a.foldl collapseStep s = b.foldl collapseStep s

theorem foldl_spaces {l : Bytes} (hne : l ≠ []) (h : ∀ c ∈ l, isSpace c = true) (s : Bytes × Bool) :
    l.foldl collapseStep s = (s.1, !s.1.isEmpty) := by
  induction l generalizing s with
  | nil => exact absurd rfl hne
  | cons c l ih =>
    have hc : collapseStep s c = (s.1, !s.1.isEmpty) := by
      rw [collapseStep, if_pos (h c List.mem_cons_self)]
    rw [List.foldl_cons, hc]
    cases l with
    | nil => rfl
    | cons d l => exact ih (by simp) (fun b hb => h b (List.mem_cons_of_mem c hb)) _

theorem SameWords.rfl {a : Bytes} : SameWords a a := fun _ => Eq.refl _

theorem SameWords.trans {a b c : Bytes} (h : SameWords a b) (h' : SameWords b c) : SameWords a c :=
  fun s => (h s).trans (h' s)

theorem SameWords.append {a b c d : Bytes} (h : SameWords a b) (h' : SameWords c d) :
    SameWords (a ++ c) (b ++ d) := by
  intro s
  rw [List.foldl_append, List.foldl_append, h s, h' _]

/-- Any whitespace separates words as any other does. -/
theorem sameWords_spaces {a b : Bytes} (ha : a ≠ []) (hb : b ≠ []) (hsa : ∀ c ∈ a, isSpace c = true)
    (hsb : ∀ c ∈ b, isSpace c = true) : SameWords a b := by
  intro s
  rw [foldl_spaces ha hsa, foldl_spaces hb hsb]

theorem SameWords.collapse {a b : Bytes} (h : SameWords a b) :
    collapseWhitespace a = collapseWhitespace b := by
  rw [collapseWhitespace_eq, collapseWhitespace_eq, h]

/-- Whitespace behind a text goes. -/
theorem collapse_append_spaces (a : Bytes) {b : Bytes} (h : ∀ c ∈ b, isSpace c = true) :
    collapseWhitespace (a ++ b) = collapseWhitespace a := by
  rw [collapseWhitespace_eq, List.foldl_append]
  by_cases hne : b = []
  · rw [hne]
    rfl
  · rw [foldl_spaces hne h]
    rfl

/-- Whitespace in front of a text goes. -/
theorem collapse_spaces_append {a : Bytes} (b : Bytes) (h : ∀ c ∈ a, isSpace c = true) :
    collapseWhitespace (a ++ b) = collapseWhitespace b := by
  rw [collapseWhitespace_eq, List.foldl_append]
  by_cases hne : a = []
  · rw [hne]
    rfl
  · rw [foldl_spaces hne h]
    rfl

/-- Collapsing keeps every byte that is not whitespace. -/
theorem visible_collapse (text : Bytes) : visible (collapseWhitespace text) = visible text := by
  have hrun : ∀ (text : Bytes) (s : Bytes × Bool),
      visible (text.foldl collapseStep s).1 = visible s.1 ++ visible text := by
    intro text
    induction text with
    | nil => intro s; simp [visible]
    | cons c text ih =>
      intro s
      rw [List.foldl_cons, ih, collapseStep]
      by_cases hc : isSpace c = true
      · simp [hc, visible]
      · have hblank : isSpace 0x20 = true := by decide
        cases hs : s.2 <;> simp [hc, visible, hblank]
  rw [collapseWhitespace_eq, hrun]
  rfl

end VlmConvert.L2

import VlmConvert.L1Text.MarkupUtf8
import VlmConvert.L2Table.InlineText

/-!
# UTF-8 from the markup to the fields

The strings of a document are texts, tags and attributes of the element tree,
its `html_text` and that text with its whitespace collapsed; a string that is
not UTF-8 would fail the whole message.

Result: `parseMarkup_utf8`.
-/
namespace VlmConvert.L2

open Bytes L1

theorem attr_utf8 {node : MarkupNode} (h : node.OwnUtf8) (name : Bytes) {fallback : Bytes}
    (hfallback : Utf8 fallback) : Utf8 (node.attr name fallback) := by
  unfold MarkupNode.attr
  split
  · rename_i attr hattr
    cases node with
    | text text => cases hattr
    | element tag attrs children => exact (h.2 attr (List.mem_of_find?_eq_some hattr)).2
  · exact hfallback

/-- The ballot boxes are U+2611 and U+2610. -/
theorem inputText_utf8 {node : MarkupNode} (h : node.OwnUtf8) : Utf8 (inputText node) := by
  have hbox : String.utf8EncodeChar (Char.ofNat 0x2611) = [0xE2, 0x98, 0x91] ∧
      String.utf8EncodeChar (Char.ofNat 0x2610) = [0xE2, 0x98, 0x90] := by decide
  unfold inputText
  dsimp only
  split
  · split
    · exact hbox.1 ▸ Utf8.encode _
    · exact hbox.2 ▸ Utf8.encode _
  · exact attr_utf8 h _ Utf8.nil

mutual
theorem htmlText_utf8 : ∀ {node : MarkupNode}, node.Utf8 → Utf8 (htmlText node)
  | .text _, h => h
  | .element tag attrs children, h => by
    rw [htmlText]
    split
    · exact Utf8.byte (by decide)
    · split
      · exact inputText_utf8 h.1
      · exact htmlTextIn_utf8 h.2
theorem htmlTextIn_utf8 : ∀ {l : List MarkupNode}, Utf8In l → Utf8 (htmlTextIn l)
  | [], _ => Utf8.nil
  | child :: rest, h => by
    rw [htmlTextIn]
    have hend : Utf8
      (if !child.isText && decide (child.tag ∈ kHtmlBlockTags) then [0x0A] else []) := by
      split
      · exact Utf8.byte (by decide)
      · exact Utf8.nil
    exact ((htmlText_utf8 h.1).append hend).append (htmlTextIn_utf8 h.2)
end

/-- A character without ASCII bytes is copied. -/
theorem collapse_high {l : Bytes} (hl : ∀ c ∈ l, 0x80 ≤ c) : ∀ s : Bytes × Bool, l ≠ [] →
    l.foldl collapseStep s = (s.1 ++ (if s.2 then [0x20] else []) ++ l, false) := by
  have hstep : ∀ (s : Bytes × Bool) (c : UInt8), 0x80 ≤ c →
      collapseStep s c = (s.1 ++ (if s.2 then [0x20] else []) ++ [c], false) := by
    intro s c hc
    have hspace : ¬ isSpace c = true := fun h => absurd (isSpace_low h) (UInt8.not_lt.2 hc)
    rw [collapseStep, if_neg hspace]
    split <;> simp
  induction l with
  | nil => exact fun _ h => absurd rfl h
  | cons c l ih =>
    intro s _
    rw [List.foldl_cons, hstep s c (hl c List.mem_cons_self)]
    cases l with
    | nil => rfl
    | cons d l =>
      rw [ih (fun e he => hl e (List.mem_cons_of_mem _ he)) _ (by simp)]
      simp

theorem collapseWhitespace_utf8 {text : Bytes} (h : Utf8 text) :
    Utf8 (collapseWhitespace text) := by
  have hfold : ∀ (chars : List Char) (s : Bytes × Bool), Utf8 s.1 →
      Utf8 ((chars.flatMap String.utf8EncodeChar).foldl collapseStep s).1 := by
    intro chars
    induction chars with
    | nil => exact fun _ hs => hs
    | cons d chars ih =>
      intro s hs
      rw [List.flatMap_cons, List.foldl_append]
      refine ih _ ?_
      have hblank : Utf8 (if s.2 then [0x20] else []) := by
        split
        · exact Utf8.byte (by decide)
        · exact Utf8.nil
      rcases Utf8.encode_cases d with ⟨c, hc, heq⟩ | ⟨hne, hhigh⟩
      · rw [heq, List.foldl_cons, List.foldl_nil, collapseStep]
        split
        · exact hs
        · refine hs.append ?_
          split
          · exact Utf8.cons (by decide) (Utf8.byte hc)
          · exact Utf8.byte hc
      · rw [collapse_high hhigh s hne]
        exact (hs.append hblank).append (Utf8.encode d)
  obtain ⟨chars, rfl⟩ := h
  exact hfold chars ([], false) Utf8.nil

/-- **UTF-8 stays UTF-8**: every node of the tree of a UTF-8 text, its
`html_text`, and that text with its whitespace collapsed. -/
theorem parseMarkup_utf8 (mode : MarkupMode) (text : Bytes) (h : Utf8 text) (node : MarkupNode)
    (hnode : (parseMarkup mode text).Holds node) :
    node.OwnUtf8 ∧ Utf8 (htmlText node) ∧ Utf8 (collapseWhitespace (htmlText node)) := by
  have hutf8 : node.Utf8 := (utf8_parseMarkup mode h).holds hnode
  exact ⟨hutf8.own, htmlText_utf8 hutf8, collapseWhitespace_utf8 (htmlText_utf8 hutf8)⟩

/-- A paragraph with 'é' and a reference to a surrogate. -/
def sampleUtf8 : Bytes := "<p>\u00E9&#xD800;</p>".toList.flatMap String.utf8EncodeChar

theorem parseMarkup_utf8_sample : Utf8 (htmlText (parseMarkup .html sampleUtf8)) ∧
    htmlText (parseMarkup .html sampleUtf8) = [0xC3, 0xA9, 0xEF, 0xBF, 0xBD, 0x0A] :=
  ⟨(parseMarkup_utf8 .html sampleUtf8 ⟨_, rfl⟩ _ .root).2.1, by decide +kernel⟩

end VlmConvert.L2

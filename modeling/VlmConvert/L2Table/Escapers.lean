import VlmConvert.L1Text.MarkupText
import VlmConvert.L2Table.LatexCellText

/-!
# The escapers and the decoder

Text is escaped for HTML in three places: a CDATA section on its way to the
tree builder (`src/mapping/markup_tree.cpp:335-338`), a LaTeX cell
(`src/mapping/nemotron.cpp:190-202`) and Markdown text
(`src/mapping/markdown_inline.cpp:26-45`). `decode_entities` reads all three back.

Results:

* `decodeEntities_escapers`: every text comes back, and a CDATA section stands
  in the text of the tree as it was written.
-/
namespace VlmConvert.L2

open Bytes L1

/-- mirrors src/mapping/nemotron.cpp:190-202 -/
def htmlEscapeInto (text : Bytes) : Bytes := text.flatMap Latex.escapeHtmlByte

/-- mirrors src/mapping/markup_tree.cpp:335-338 -/
def cdataLiteral (content : Bytes) : Bytes :=
  content.flatMap fun c => if c == 0x26 then ascii "&amp;" else [c]

/-- What a CDATA section says is its content, between what the text says in
front of it and what it says behind it. -/
theorem chars_cdata {mode : MarkupMode} {text content tail : Bytes} {front back : List MarkupPiece}
    (h : markupPieces mode text = front ++ .cdata content tail :: back) :
    (parseMarkup mode text).chars =
      front.flatMap MarkupPiece.chars ++ content ++ back.flatMap MarkupPiece.chars := by
  rw [chars_parseMarkup, h, List.flatMap_append, List.flatMap_cons, List.append_assoc]
  rfl

/-- **Read back.** The decoder undoes each of the three escapers, and so a CDATA
section of any input is literal in the text of its tree. -/
theorem decodeEntities_escapers (x : Bytes) :
    decodeEntities (cdataLiteral x) = x ∧ decodeEntities (htmlEscapeInto x) = x ∧
      decodeEntities (escapeInto x) = x ∧
      ∀ (mode : MarkupMode) (content tail : Bytes) (front back : List MarkupPiece),
        markupPieces mode x = front ++ .cdata content tail :: back →
          x = front.flatMap MarkupPiece.source ++ (ascii "<![CDATA[" ++ content ++ tail) ++
            back.flatMap MarkupPiece.source ∧
          (parseMarkup mode x).chars =
            front.flatMap MarkupPiece.chars ++ content ++ back.flatMap MarkupPiece.chars := by
  refine ⟨decodeEntities_literal x, decodeEntities_escaped Latex.decodes_escapeHtmlByte x,
    decodeEntities_escaped decodes_escapeByte x, fun mode content tail front back hpieces => ?_⟩
  refine ⟨?_, chars_cdata hpieces⟩
  have hsource := @markupPieces_source mode x
  rw [hpieces, List.flatMap_append, List.flatMap_cons] at hsource
  rw [← hsource, List.append_assoc]
  rfl

end VlmConvert.L2

import VlmConvert.L3Document.Doclang

/-!
# DocLang: which text reaches an item

`get_text` reads all text of an element. `text_like` writes an element of
several runs through `inline_runs` and `dispatch`, whose tag sets are not the
ones `get_text` reads by: `<rtl>`, `<handwriting>` and `<checkbox>` are walked
for elements and their own text is passed over. An element of one run is
written by `text_with_formatting`, which follows a lone formatting child and
leaves the text beside it.

`pieces` lists an element's text in order, each piece with its fate: `kept`,
`lost` (read by `get_text`, not written) or `extra` (written, but below a
`<location>`, `<custom>` or `<br>`, which `get_text` does not enter).

Results:
* `shown_textLike`: what `text_like` writes is the pieces that are not lost.
* `getText_pieces`: what `get_text` reads is the pieces that are not extra.
* `doclang_keeps_text`: when the two agree.
-/
namespace VlmConvert.L3.Doclang

open Bytes L1 L2

/-! ## The text vocabulary -/

/-- Tags an element of text may hold. -/
def textTags : List Bytes :=
  kHeadTags ++ kFormatTags ++ ["rtl", "handwriting", "checkbox", "content", "br"].map ascii

mutual
def inVocabulary : MarkupNode → Bool
  | .text _ => true
  | .element tag _ children => textTags.contains tag && allInVocabulary children
def allInVocabulary : List MarkupNode → Bool
  | [] => true
  | node :: rest => inVocabulary node && allInVocabulary rest
end

/-! ## The fate of each piece of text -/

inductive Fate
  | kept | lost | extra
  deriving DecidableEq, Repr

structure Piece where
  fate : Fate
  text : Bytes
  deriving DecidableEq, Repr

/-- `get_text` does not enter it. -/
def unread (tag : Bytes) : Bool :=
  tag == ascii "location" || tag == ascii "custom" || tag == ascii "br"

/-- Written though not read. -/
def asExtra (ps : List Piece) : List Piece :=
  (ps.filter fun p => p.fate != .lost).map fun p => ⟨.extra, p.text⟩

/-- Read and not written: the text of an element that is passed over. -/
def passedOver (tag : Bytes) (attrs : List (Bytes × Bytes)) (children : List MarkupNode) :
    List Piece :=
  if unread tag then [] else [⟨.lost, getText (.element tag attrs children)⟩]

/-- Four locations in its head make a `<text>` a host. -/
def hosts (tag : Bytes) (children : List MarkupNode) : Bool :=
  kHosts.contains tag && (tag != ascii "text" ||
    decide (4 ≤ ((headNodes children).filter fun node => node.tag == ascii "location").length))

mutual
/-- One run: a lone formatting child is followed. -/
def chainPieces : MarkupNode → List Piece
  | .text _ => []
  | .element tag attrs children =>
    if hasLoneFormat children then lonePieces children
    else [⟨.kept, getText (.element tag attrs children)⟩]
def lonePieces : List MarkupNode → List Piece
  | [] => []
  | .text t :: rest => ⟨.lost, t⟩ :: lonePieces rest
  | .element tag attrs children :: rest =>
    (if tag == ascii "location" then [] else chainPieces (.element tag attrs children)) ++
      lonePieces rest
end

mutual
/-- Several runs. -/
def runPieces (skip : Bool) : List MarkupNode → List Piece
  | [] => []
  | .text t :: rest => ⟨.kept, t⟩ :: runPieces (skip && (trim t).isEmpty) rest
  | .element tag attrs children :: rest =>
    if skip && kHeadTags.contains tag then passedOver tag attrs children ++ runPieces skip rest
    else if kFormatTags.contains tag then runPieces false children ++ runPieces false rest
    else nodePieces (.element tag attrs children) ++ runPieces false rest
/-- An element that `dispatch` gets. -/
def nodePieces : MarkupNode → List Piece
  | .text _ => []
  | .element tag attrs children =>
    if unread tag then asExtra (walkPieces children)
    else if kTextLike.contains tag then
      if splits (.element tag attrs children) then runPieces (hosts tag children) children
      else chainPieces (.element tag attrs children)
    else walkPieces children
/-- The children of an element that is walked for elements. -/
def walkPieces : List MarkupNode → List Piece
  | [] => []
  | .text t :: rest => ⟨.lost, t⟩ :: walkPieces rest
  | .element tag attrs children :: rest =>
    (if kSkip.contains tag then passedOver tag attrs children
      else nodePieces (.element tag attrs children)) ++ walkPieces rest
end

/-- The pieces of a text element. -/
def pieces : MarkupNode → List Piece := nodePieces

/-- What is written. -/
def written (ps : List Piece) : Bytes :=
  visible ((ps.filter fun p => p.fate != .lost).flatMap Piece.text)

/-- What `get_text` reads. -/
def read (ps : List Piece) : Bytes :=
  visible ((ps.filter fun p => p.fate != .extra).flatMap Piece.text)

@[simp] theorem written_nil : written [] = [] := rfl

@[simp] theorem read_nil : read [] = [] := rfl

@[simp] theorem written_append (ps qs : List Piece) :
    written (ps ++ qs) = written ps ++ written qs := by
  simp [written]

@[simp] theorem read_append (ps qs : List Piece) : read (ps ++ qs) = read ps ++ read qs := by
  simp [read]

theorem written_cons (p : Piece) (ps : List Piece) :
    written (p :: ps) = (if p.fate = .lost then [] else visible p.text) ++ written ps := by
  rw [← List.singleton_append, written_append]
  congr 1
  cases h : p.fate <;> simp [written, h, visible]

theorem read_cons (p : Piece) (ps : List Piece) :
    read (p :: ps) = (if p.fate = .extra then [] else visible p.text) ++ read ps := by
  rw [← List.singleton_append, read_append]
  congr 1
  cases h : p.fate <;> simp [read, h, visible]

@[simp] theorem written_asExtra (ps : List Piece) : written (asExtra ps) = written ps := by
  induction ps with
  | nil => rfl
  | cons p ps ih =>
    cases h : p.fate with
    | lost => rw [written_cons, if_pos h, List.nil_append, ← ih]; simp [asExtra, h]
    | kept =>
      have hextra : asExtra (p :: ps) = ⟨.extra, p.text⟩ :: asExtra ps := by simp [asExtra, h]
      rw [hextra, written_cons, written_cons, ih]
      simp [h]
    | extra =>
      have hextra : asExtra (p :: ps) = ⟨.extra, p.text⟩ :: asExtra ps := by simp [asExtra, h]
      rw [hextra, written_cons, written_cons, ih]
      simp [h]

@[simp] theorem read_asExtra (ps : List Piece) : read (asExtra ps) = [] := by
  have hall : (asExtra ps).filter (fun p => p.fate != .extra) = [] := by
    rw [List.filter_eq_nil_iff]
    intro p hp
    obtain ⟨q, -, rfl⟩ := List.mem_map.1 hp
    simp
  rw [read, hall]
  rfl

/-! ## What `get_text` reads -/

theorem visible_ownText (tag text : Bytes) : visible (ownText tag text) = visible text := by
  unfold ownText
  split
  · rename_i hblank
    have hspace : text.all isSpace = true := by
      rw [List.all_eq_true]
      exact fun b hb => isSpace_of_isBlank (List.all_eq_true.1 hblank b hb)
    rw [visible_eq_nil.2 hspace]
    rfl
  · split
    · rfl
    · exact visible_trim text

/-- An element's part of its parent's text. -/
theorem getTextIn_element (tag t : Bytes) (attrs : List (Bytes × Bytes))
    (children rest : List MarkupNode) :
    visible (getTextIn tag (.element t attrs children :: rest)) =
      (if unread t then [] else visible (getText (.element t attrs children))) ++
        visible (getTextIn tag rest) := by
  rw [getTextIn, visible_append]
  congr 1
  cases hloc : t == ascii "location" || t == ascii "custom" with
  | true =>
    simp only [unread, hloc, Bool.true_or, if_true]
    rfl
  | false =>
    cases hbr : t == ascii "br" with
    | true =>
      simp only [unread, hloc, hbr, Bool.or_true, if_true, Bool.false_eq_true, if_false]
      rfl
    | false => simp [unread, hloc, hbr]

theorem read_passedOver (tag : Bytes) (attrs : List (Bytes × Bytes)) (children : List MarkupNode) :
    read (passedOver tag attrs children) =
      if unread tag then [] else visible (getText (.element tag attrs children)) := by
  unfold passedOver
  split
  · rfl
  · rw [read_cons]
    simp

@[simp] theorem written_passedOver (tag : Bytes) (attrs : List (Bytes × Bytes))
    (children : List MarkupNode) : written (passedOver tag attrs children) = [] := by
  unfold passedOver
  split
  · rfl
  · rfl

theorem ownElements_element (tag : Bytes) (attrs : List (Bytes × Bytes))
    (children rest : List MarkupNode) :
    ownElements (.element tag attrs children :: rest) =
      if tag == ascii "location" then ownElements rest
      else .element tag attrs children :: ownElements rest := by
  simp only [ownElements, List.filter_cons, MarkupNode.isText, MarkupNode.tag, bne]
  cases tag == ascii "location" with
  | true => rfl
  | false => rfl

theorem unread_of_format {tag : Bytes} (h : isFormat tag = true) : unread tag = false := by
  have hall : ∀ t ∈ kFormatTags ++ [ascii "rtl"], unread t = false := by decide
  refine hall tag ?_
  simpa [isFormat] using h

mutual
theorem read_chain : ∀ el : MarkupNode, visible (getText el) = read (chainPieces el)
  | .text _ => rfl
  | .element tag attrs children => by
    unfold chainPieces
    split
    · rename_i hlone
      refine read_lone tag children ?_
      intro child hchild
      unfold hasLoneFormat at hlone
      split at hlone
      · rename_i lone hown
        rw [hown, List.mem_singleton] at hchild
        rw [hchild]
        exact hlone
      · cases hlone
    · rw [read_cons]
      simp
theorem read_lone (tag : Bytes) : ∀ children : List MarkupNode,
    (∀ child ∈ ownElements children, isFormat child.tag = true) →
    visible (getTextIn tag children) = read (lonePieces children)
  | [], _ => rfl
  | .text t :: rest, h => by
    have hrest := read_lone tag rest (by simpa [ownElements, MarkupNode.isText] using h)
    rw [getTextIn, visible_append, visible_ownText, lonePieces, read_cons, hrest]
    rfl
  | .element t attrs children :: rest, h => by
    rw [ownElements_element] at h
    have hrest : ∀ child ∈ ownElements rest, isFormat child.tag = true := by
      intro child hchild
      refine h child ?_
      split
      · exact hchild
      · exact List.mem_cons_of_mem _ hchild
    rw [getTextIn_element, lonePieces, read_append, read_lone tag rest hrest]
    congr 1
    cases hloc : t == ascii "location" with
    | true => simp [unread, hloc]
    | false =>
      have hformat : isFormat t = true := by
        refine h (.element t attrs children) ?_
        rw [hloc]
        exact List.mem_cons_self
      simp only [unread_of_format hformat, Bool.false_eq_true, if_false]
      exact read_chain (.element t attrs children)
end

theorem unread_of_mem_format {tag : Bytes} (h : kFormatTags.contains tag = true) :
    unread tag = false :=
  unread_of_format (by rw [isFormat, h]; rfl)

mutual
theorem read_run (tag : Bytes) : ∀ (skip : Bool) (children : List MarkupNode),
    visible (getTextIn tag children) = read (runPieces skip children)
  | _, [] => rfl
  | skip, .text t :: rest => by
    rw [getTextIn, visible_append, visible_ownText, runPieces, read_cons,
      read_run tag (skip && (trim t).isEmpty) rest]
    rfl
  | skip, .element t attrs children :: rest => by
    rw [getTextIn_element, runPieces]
    by_cases hskip : (skip && kHeadTags.contains t) = true
    · rw [if_pos hskip, read_append, read_passedOver, ← read_run tag skip rest]
    · rw [if_neg hskip]
      by_cases hformat : kFormatTags.contains t = true
      · rw [if_pos hformat, read_append, ← read_run tag false rest, ← read_run t false children,
          unread_of_mem_format hformat]
        rfl
      · rw [if_neg hformat, read_append, ← read_run tag false rest,
          ← read_node (.element t attrs children)]
        rfl
theorem read_node : ∀ node : MarkupNode,
    (if unread node.tag then [] else visible (getText node)) = read (nodePieces node)
  | .text _ => by simp [getText, nodePieces, visible]
  | .element tag attrs children => by
    unfold nodePieces
    show (if unread tag then [] else visible (getTextIn tag children)) = _
    split
    · rw [read_asExtra]
    · split
      · split
        · exact read_run tag (hosts tag children) children
        · exact read_chain (.element tag attrs children)
      · exact read_walk tag children
theorem read_walk (tag : Bytes) : ∀ children : List MarkupNode,
    visible (getTextIn tag children) = read (walkPieces children)
  | [] => rfl
  | .text t :: rest => by
    rw [getTextIn, visible_append, visible_ownText, walkPieces, read_cons, read_walk tag rest]
    rfl
  | .element t attrs children :: rest => by
    rw [getTextIn_element, walkPieces, read_append, ← read_walk tag rest]
    congr 1
    by_cases hskip : kSkip.contains t = true
    · rw [if_pos hskip, read_passedOver]
    · rw [if_neg hskip]
      exact read_node (.element t attrs children)
end

/-! ## What is written -/

/-- The visible text of the items so far. -/
def shown (b : Builder) : Bytes := visible (b.writer.doc.texts.flatMap itemText)

section Writer
variable (page : PageContext) (w : LayoutWriter)

theorem styledText_texts (box : Option BoundingBox) (body : Bytes) (parent : Option BodyChild)
    (label : DocItemLabel) (formatting : Option Wire) (hyperlink : Bytes) :
    visible ((w.styledText page box body parent label formatting hyperlink).1.doc.texts.flatMap
      itemText) =
      visible (w.doc.texts.flatMap itemText) ++ visible body := by
  unfold LayoutWriter.styledText
  dsimp only
  rw [flatMap_modify _ _ _ _ fun item => by cases item <;> rfl]
  have hadded : ∀ item, itemText item = body →
      visible ((w.doc.addTexts item).texts.flatMap itemText) =
        visible (w.doc.texts.flatMap itemText) ++ visible body := by
    rintro item rfl
    simp [Document.addTexts]
  split
  · exact hadded _ rfl
  · exact hadded _ rfl
  · exact hadded _ rfl
  · exact hadded _ rfl
  · exact hadded _ rfl
  · refine hadded _ ?_
    unfold LayoutWriter.stampLayer
    split
    · rfl
    · rfl

theorem setContentLayer_texts (ref : BodyChild) (layer : ContentLayer) :
    (w.setContentLayer ref layer).doc.texts.flatMap itemText = w.doc.texts.flatMap itemText := by
  unfold LayoutWriter.setContentLayer
  split
  · exact flatMap_modify _ _ _ _ fun item => by cases item <;> rfl
  · rfl
  · rfl

theorem applyLayer_texts (ref : BodyChild) (children : List MarkupNode) :
    (applyLayer w ref children).doc.texts.flatMap itemText = w.doc.texts.flatMap itemText := by
  unfold applyLayer
  split
  · exact setContentLayer_texts w ref _
  · rfl

theorem layers_texts (kind : BodyChild.Kind) (layer : ContentLayer) (indices : List Nat) :
    ∀ w : LayoutWriter,
    (indices.foldl (fun w i => w.setContentLayer ⟨kind, i⟩ layer) w).doc.texts.flatMap itemText =
      w.doc.texts.flatMap itemText := by
  induction indices with
  | nil => intro w; rfl
  | cons i indices ih =>
    intro w
    rw [List.foldl_cons, ih, setContentLayer_texts]

end Writer

@[simp] theorem shown_layerSubtree (textsBefore groupsBefore : Nat) (children : List MarkupNode)
    (b : Builder) : shown (layerSubtree textsBefore groupsBefore children b) = shown b := by
  unfold layerSubtree
  split
  · rfl
  · simp only [shown, layers_texts]

/-! ### One run -/

theorem written_lone_nil : ∀ children : List MarkupNode, ownElements children = [] →
    written (lonePieces children) = []
  | [], _ => rfl
  | .text t :: rest, h => by
    rw [lonePieces, written_cons, if_pos rfl]
    exact written_lone_nil rest (by simpa [ownElements, MarkupNode.isText] using h)
  | .element tag attrs children :: rest, h => by
    rw [ownElements_element] at h
    rw [lonePieces]
    split
    · rename_i hloc
      rw [if_pos hloc] at h
      exact written_lone_nil rest h
    · rename_i hloc
      rw [if_neg hloc] at h
      cases h

mutual
theorem written_chain (f : Formatting × Bool) : ∀ el : MarkupNode,
    visible (textWithFormatting f el).1 = written (chainPieces el)
  | .text _ => rfl
  | .element tag attrs children => by
    rw [textWithFormatting, chainPieces]
    by_cases hlone : hasLoneFormat children = true
    · rw [if_pos hlone, if_pos hlone]
      refine written_lone f children ?_
      unfold hasLoneFormat at hlone
      split at hlone
      · rename_i lone hown
        rw [hown]
        exact Nat.le_refl 1
      · cases hlone
    · rw [if_neg hlone, if_neg hlone, written_cons]
      simp
theorem written_lone (f : Formatting × Bool) : ∀ children : List MarkupNode,
    (ownElements children).length ≤ 1 →
      visible (loneText f children).1 = written (lonePieces children)
  | [], _ => rfl
  | .text t :: rest, h => by
    rw [loneText, lonePieces, written_cons, if_pos rfl]
    exact written_lone f rest (by simpa [ownElements, MarkupNode.isText] using h)
  | .element tag attrs children :: rest, h => by
    rw [loneText, lonePieces]
    by_cases hloc : (tag == ascii "location") = true
    · rw [if_pos hloc, if_pos hloc]
      rw [ownElements_element, if_pos hloc] at h
      exact written_lone f rest h
    · have hrest : ownElements rest = [] := by
        rw [ownElements_element, if_neg hloc, List.length_cons] at h
        exact List.eq_nil_of_length_eq_zero (by omega)
      rw [if_neg hloc, if_neg hloc, written_append, written_lone_nil rest hrest, List.append_nil]
      exact written_chain f (.element tag attrs children)
end

/-! ### Hosts -/

section Write
variable (page : PageContext) (res : Resolution)
  (handlers : MarkupNode → Option BodyChild → Builder → Builder)

/-- The fourth location completes the box. -/
theorem boxFrom_isSome : ∀ (nodes : List MarkupNode) (values : List Int) (resX resY : Int),
    values.length < 4 → (boxFrom page res values resX resY nodes).isSome =
      decide (4 ≤ values.length + (nodes.filter fun node => node.tag == ascii "location").length)
  | [], values, _, _, h => by
    simp only [boxFrom, List.filter_nil, List.length_nil]
    exact (decide_eq_false (by omega)).symm
  | node :: rest, values, resX, resY, h => by
    rw [boxFrom, List.filter_cons]
    cases hloc : node.tag == ascii "location" with
    | false =>
      simp only [bne, hloc, Bool.not_false, Bool.or_true, if_true, Bool.false_eq_true, if_false]
      exact boxFrom_isSome rest values resX resY h
    | true =>
      have htext : node.isText = false := by
        cases node with
        | text t => cases hloc
        | element tag attrs children => rfl
      simp only [htext, bne, hloc, Bool.not_true, Bool.or_self, Bool.false_eq_true, if_false,
        if_true, List.length_cons]
      generalize hvalues : values ++ [(parseInt (node.attr (ascii "value") (ascii "0"))).getD 0] =
        next
      have hlength : next.length = values.length + 1 := by simp [← hvalues]
      split
      · -- the fourth value
        simp only [List.length_cons, List.length_nil] at hlength
        exact (decide_eq_true (by omega)).symm
      · rename_i hne
        have hfewer : next.length < 4 := by
          refine Nat.lt_of_le_of_ne (by omega) fun hfour => ?_
          match next, hfour with
          | [x1, y1, x2, y2], _ => exact hne x1 y1 x2 y2 rfl
        rw [boxFrom_isSome rest next _ _ hfewer, hlength, Nat.add_right_comm, Nat.add_assoc]

theorem isHost_eq (tag : Bytes) (children : List MarkupNode) :
    isHost page res tag children = hosts tag children := by
  have hbox : (headBox page res children).isSome = decide (4 ≤
      ((headNodes children).filter fun node => node.tag == ascii "location").length) := by
    rw [headBox, boxFrom_isSome page res _ [] _ _ (by decide), List.length_nil, Nat.zero_add]
  rw [isHost, hosts, hbox]

/-! ### Several runs -/

/-- Tags `text_like` writes as a text item. -/
def isPlain (tag : Bytes) : Bool :=
  kTextLike.contains tag && tag != ascii "code" && tag != ascii "formula" && tag != ascii "ldiv"

theorem textLabel_isSome {tag : Bytes} (h : isPlain tag = true) :
    (textLabel tag).isSome = true := by
  have hall : ∀ t ∈ kTextLike, isPlain t = true → (textLabel t).isSome = true := by decide
  simp only [isPlain, Bool.and_eq_true, List.contains_iff_mem] at h
  refine hall tag h.1.1.1 ?_
  simp only [isPlain, Bool.and_eq_true, List.contains_iff_mem]
  exact h

theorem shown_singleRun {tag : Bytes} (h : isPlain tag = true) (parent : Option BodyChild)
    (b : Builder)
    (attrs : List (Bytes × Bytes)) (children : List MarkupNode) :
    shown (singleRun page res parent b (.element tag attrs children)) =
      shown b ++ written (chainPieces (.element tag attrs children)) := by
  have hformula : (tag == ascii "formula") = false := by
    simp only [isPlain, Bool.and_eq_true, bne_iff_ne] at h
    exact beq_eq_false_iff_ne.2 h.1.2
  obtain ⟨label, hlabel⟩ := Option.isSome_iff_exists.1 (textLabel_isSome h)
  rw [← written_chain ({}, false)]
  simp only [singleRun, MarkupNode.tag, hformula, Bool.false_eq_true, if_false, hlabel]
  split
  · rename_i hempty
    rw [List.isEmpty_iff.1 (Bool.and_eq_true_iff.1 hempty).1]
    simp [visible]
  · simp only [shown, applyLayer_texts, styledText_texts]

theorem shown_textLikeWith {tag : Bytes} (h : isPlain tag = true) (attrs : List (Bytes × Bytes))
    (children : List MarkupNode) (runs : Bool → BodyChild → Option Formatting → Builder → Builder)
    (captions : Builder → Builder × List BodyChild) (parent : Option BodyChild) (b : Builder)
    (hruns : ∀ skip parent formatting b,
      shown (runs skip parent formatting b) = shown b ++ written (runPieces skip children)) :
    shown (textLikeWith page res runs captions parent b tag attrs children) =
      shown b ++ written
        (if splits (.element tag attrs children) then runPieces (hosts tag children) children
        else chainPieces (.element tag attrs children)) := by
  have hcode : (tag == ascii "code") = false := by
    simp only [isPlain, Bool.and_eq_true, bne_iff_ne] at h
    exact beq_eq_false_iff_ne.2 h.1.1.2
  unfold textLikeWith
  dsimp only
  by_cases hsplits : splits (.element tag attrs children) = true
  · rw [if_pos hsplits, if_pos hsplits, isHost_eq]
    cases hhost : hosts tag children with
    | true =>
      have hopen : shown (openHost page res children ((textLabel tag).getD .text) parent b).1 =
        shown b := by
        simp only [openHost, shown]
        exact (styledText_texts page _ _ _ _ _ _ _).trans (List.append_nil _)
      simp only [if_true, shown_layerSubtree, hruns, hopen]
    | false =>
      simp only [Bool.false_eq_true, if_false, shown_layerSubtree, hruns]
      rfl
  · rw [if_neg hsplits, if_neg hsplits, if_neg (by simp [hcode])]
    exact shown_singleRun page res h parent b attrs children

/-- `dispatch` writes an element of the vocabulary as text or walks it. -/
theorem textTags_cases {tag : Bytes} (h : textTags.contains tag = true) :
    (tag == ascii "track" || tag == ascii "page_break") = false ∧ (tag == ascii "heading") = false ∧
      [ascii "list", ascii "group", ascii "table", ascii "index", ascii "picture"].contains tag =
        false ∧
      (kTextLike.contains tag = true → isPlain tag = true ∧ unread tag = false) := by
  have hall : ∀ t ∈ textTags, (t == ascii "track" || t == ascii "page_break") = false ∧
      (t == ascii "heading") = false ∧
      [ascii "list", ascii "group", ascii "table", ascii "index", ascii "picture"].contains t =
        false ∧
      (kTextLike.contains t = true → isPlain t = true ∧ unread t = false) := by decide
  exact hall tag (List.contains_iff_mem.1 h)

mutual
theorem shown_inlineRuns : ∀ (skip : Bool) (parent : BodyChild) (formatting : Option Formatting)
    (b : Builder) (children : List MarkupNode), allInVocabulary children = true →
    shown (inlineRuns page res handlers skip parent formatting b children) =
      shown b ++ written (runPieces skip children)
  | _, _, _, _, [], _ => (List.append_nil _).symm
  | skip, parent, formatting, b, .text t :: rest, h => by
    have hrest : allInVocabulary rest = true := h
    rw [runPieces, written_cons]
    show _ = shown b ++ (visible t ++ _)
    cases hempty : (trim t).isEmpty with
    | true =>
      have hblank : visible t = [] := by
        rw [← visible_trim, List.isEmpty_iff.1 hempty]
        rfl
      rw [inlineRuns, if_pos hempty, Bool.and_true, hblank, List.nil_append]
      exact shown_inlineRuns skip parent formatting b rest hrest
    | false =>
      rw [inlineRuns, if_neg (by simp [hempty]), Bool.and_false]
      dsimp only
      rw [shown_inlineRuns false parent formatting _ rest hrest, ← List.append_assoc]
      congr 1
      rw [shown, styledText_texts, visible_trim, shown]
  | skip, parent, formatting, b, .element tag attrs children :: rest, h => by
    simp only [allInVocabulary, Bool.and_eq_true] at h
    have hnode := h.1
    simp only [inVocabulary, Bool.and_eq_true] at hnode
    rw [inlineRuns, runPieces]
    by_cases hskip : (skip && kHeadTags.contains tag) = true
    · rw [if_pos hskip, if_pos hskip, written_append, written_passedOver, List.nil_append]
      exact shown_inlineRuns skip parent formatting b rest h.2
    · rw [if_neg hskip, if_neg hskip]
      by_cases hformat : kFormatTags.contains tag = true
      · rw [if_pos hformat, if_pos hformat, shown_inlineRuns false parent formatting _ rest h.2,
          shown_inlineRuns false parent _ b children hnode.2, written_append, List.append_assoc]
      · rw [if_neg hformat, if_neg hformat, shown_inlineRuns false parent formatting _ rest h.2,
          shown_dispatch (some parent) b (.element tag attrs children) h.1, written_append,
          List.append_assoc]
theorem shown_dispatch : ∀ (parent : Option BodyChild) (b : Builder) (node : MarkupNode),
    inVocabulary node = true →
    shown (dispatch page res handlers parent b node) = shown b ++ written (nodePieces node)
  | _, _, .text _, _ => (List.append_nil _).symm
  | parent, b, .element tag attrs children, h => by
    simp only [inVocabulary, Bool.and_eq_true] at h
    obtain ⟨hbreak, hheading, hhandler, htext⟩ := textTags_cases h.1
    rw [dispatch, nodePieces, hbreak, hheading, hhandler]
    simp only [Bool.false_eq_true, if_false]
    by_cases hlike : kTextLike.contains tag = true
    · obtain ⟨hplain, hread⟩ := htext hlike
      rw [if_pos hlike, if_pos hlike, hread]
      exact shown_textLikeWith page res hplain attrs children _ _ parent b
        fun skip parent formatting b => shown_inlineRuns skip parent formatting b children h.2
    · rw [if_neg hlike, if_neg hlike, shown_walkChildren parent b children h.2]
      split
      · rw [written_asExtra]
      · rfl
theorem shown_walkChildren :
    ∀ (parent : Option BodyChild) (b : Builder) (children : List MarkupNode),
    allInVocabulary children = true →
    shown (walkChildren page res handlers parent b children) =
      shown b ++ written (walkPieces children)
  | _, _, [], _ => (List.append_nil _).symm
  | parent, b, .text t :: rest, h => by
    rw [walkChildren, walkPieces, written_cons, if_pos rfl]
    exact shown_walkChildren parent b rest h
  | parent, b, .element tag attrs children :: rest, h => by
    simp only [allInVocabulary, Bool.and_eq_true] at h
    rw [walkChildren, walkPieces, written_append]
    by_cases hskip : kSkip.contains tag = true
    · rw [if_pos hskip, if_pos hskip, written_passedOver]
      exact shown_walkChildren parent b rest h.2
    · rw [if_neg hskip, if_neg hskip, shown_walkChildren parent _ rest h.2,
        shown_dispatch parent b (.element tag attrs children) h.1, List.append_assoc]
end

/-- The items of a text element show its pieces that are not lost. -/
theorem shown_textLike {tag : Bytes} (htag : kHosts.contains tag = true)
    (attrs : List (Bytes × Bytes))
    {children : List MarkupNode} (h : allInVocabulary children = true) (parent : Option BodyChild)
    (b : Builder) :
    shown (textLike page res handlers parent b (.element tag attrs children)) =
      shown b ++ written (pieces (.element tag attrs children)) := by
  have hall : ∀ t ∈ kHosts, isPlain t = true ∧ unread t = false ∧ kTextLike.contains t = true := by
    decide
  obtain ⟨hplain, hread, hlike⟩ := hall tag (List.contains_iff_mem.1 htag)
  rw [textLike, shown_textLikeWith page res hplain attrs children _ _ parent b
    fun skip parent formatting b =>
      shown_inlineRuns page res handlers skip parent formatting b children h,
    pieces, nodePieces, hread, hlike]
  rfl

end Write

/-- `get_text` reads the pieces that are not extra. -/
theorem getText_pieces {tag : Bytes} (htag : kHosts.contains tag = true)
    (attrs : List (Bytes × Bytes))
    (children : List MarkupNode) :
    visible (getText (.element tag attrs children)) =
      read (pieces (.element tag attrs children)) := by
  have hall : ∀ t ∈ kHosts, unread t = false := by decide
  rw [pieces, ← read_node]
  simp only [MarkupNode.tag, hall tag (List.contains_iff_mem.1 htag), Bool.false_eq_true, if_false]

/-! ## When no text is lost -/

/-- All text of the pieces with a fate is whitespace. -/
def blankAll (fate : Fate) (ps : List Piece) : Prop :=
  ∀ p ∈ ps, p.fate = fate → p.text.all isSpace = true

instance (fate : Fate) (ps : List Piece) : Decidable (blankAll fate ps) :=
  inferInstanceAs (Decidable (∀ p ∈ ps, p.fate = fate → p.text.all isSpace = true))

/-- The visible text of the pieces with a fate. -/
def textOf (fate : Fate) (ps : List Piece) : Bytes :=
  visible ((ps.filter fun p => p.fate == fate).flatMap Piece.text)

theorem textOf_cons (fate : Fate) (p : Piece) (ps : List Piece) :
    textOf fate (p :: ps) = (if p.fate = fate then visible p.text else []) ++ textOf fate ps := by
  by_cases h : p.fate = fate
  · simp [textOf, h]
  · simp [textOf, h]

theorem textOf_eq_nil {fate : Fate} {ps : List Piece} : textOf fate ps = [] ↔ blankAll fate ps := by
  induction ps with
  | nil => simp [textOf, blankAll, visible]
  | cons p ps ih =>
    rw [textOf_cons, List.append_eq_nil_iff, ih]
    refine Iff.trans (and_congr_left' ?_) List.forall_mem_cons.symm
    split
    · rename_i hfate
      rw [visible_eq_nil]
      exact ⟨fun h _ => h, fun h => h hfate⟩
    · rename_i hfate
      exact ⟨fun _ h => absurd h hfate, fun _ => rfl⟩

theorem written_of_blank {ps : List Piece} (h : blankAll .extra ps) :
    written ps = textOf .kept ps := by
  induction ps with
  | nil => rfl
  | cons p ps ih =>
    obtain ⟨hp, hps⟩ := List.forall_mem_cons.1 h
    rw [written_cons, textOf_cons, ih hps]
    cases hfate : p.fate with
    | kept => rfl
    | lost => rfl
    | extra => simp [visible_eq_nil.2 (hp hfate)]

theorem read_of_blank {ps : List Piece} (h : blankAll .lost ps) : read ps = textOf .kept ps := by
  induction ps with
  | nil => rfl
  | cons p ps ih =>
    obtain ⟨hp, hps⟩ := List.forall_mem_cons.1 h
    rw [read_cons, textOf_cons, ih hps]
    cases hfate : p.fate with
    | kept => rfl
    | lost => simp [visible_eq_nil.2 (hp hfate)]
    | extra => rfl

/-- What is lost and what is extra, by length. -/
theorem written_length (ps : List Piece) :
    (written ps).length = (textOf .kept ps).length + (textOf .extra ps).length ∧
      (read ps).length = (textOf .kept ps).length + (textOf .lost ps).length := by
  induction ps with
  | nil => exact ⟨rfl, rfl⟩
  | cons p ps ih =>
    rw [written_cons, read_cons, textOf_cons, textOf_cons, textOf_cons]
    cases p.fate with
    | kept =>
      simp only [List.length_append, List.nil_append, reduceCtorEq, if_true, if_false]
      omega
    | lost =>
      simp only [List.length_append, List.nil_append, reduceCtorEq, if_true, if_false]
      omega
    | extra =>
      simp only [List.length_append, List.nil_append, reduceCtorEq, if_true, if_false]
      omega

theorem written_eq_read_iff {ps : List Piece} :
    (blankAll .extra ps → (written ps = read ps ↔ blankAll .lost ps)) ∧
      (blankAll .lost ps → (written ps = read ps ↔ blankAll .extra ps)) := by
  obtain ⟨hwritten, hread⟩ := written_length ps
  refine ⟨fun hextra => ⟨fun h => ?_, fun hlost => ?_⟩,
    fun hlost => ⟨fun h => ?_, fun hextra => ?_⟩⟩
  · refine textOf_eq_nil.1 (List.eq_nil_of_length_eq_zero ?_)
    rw [textOf_eq_nil.2 hextra, List.length_nil] at hwritten
    rw [h] at hwritten
    omega
  · rw [written_of_blank hextra, read_of_blank hlost]
  · refine textOf_eq_nil.1 (List.eq_nil_of_length_eq_zero ?_)
    rw [textOf_eq_nil.2 hlost, List.length_nil] at hread
    rw [h] at hwritten
    omega
  · rw [written_of_blank hextra, read_of_blank hlost]

section Keeps
variable (page : PageContext) (res : Resolution)
  (handlers : MarkupNode → Option BodyChild → Builder → Builder)

/-- The items a text element adds show what `get_text` reads of it. -/
def KeepsText (parent : Option BodyChild) (b : Builder) (el : MarkupNode) : Prop :=
  shown (textLike page res handlers parent b el) = shown b ++ visible (getText el)

/-- **A text element keeps its text** exactly when its pieces show the same
without the lost and without the extra ones: where nothing is extra, exactly
when nothing is lost, and the other way round. -/
theorem doclang_keeps_text {tag : Bytes} (htag : kHosts.contains tag = true)
    (attrs : List (Bytes × Bytes))
    {children : List MarkupNode} (h : allInVocabulary children = true) (parent : Option BodyChild)
    (b : Builder) :
    let el := MarkupNode.element tag attrs children
    (KeepsText page res handlers parent b el ↔ written (pieces el) = read (pieces el)) ∧
      (blankAll .extra (pieces el) →
        (KeepsText page res handlers parent b el ↔ blankAll .lost (pieces el))) ∧
      (blankAll .lost (pieces el) →
        (KeepsText page res handlers parent b el ↔ blankAll .extra (pieces el))) := by
  intro el
  have hkeeps : KeepsText page res handlers parent b el ↔
      written (pieces el) = read (pieces el) := by
    rw [KeepsText, shown_textLike page res handlers htag attrs h parent b,
      getText_pieces htag attrs children, List.append_cancel_left_eq]
  rw [hkeeps]
  exact ⟨Iff.rfl, written_eq_read_iff⟩

end Keeps

/-- Formatting beside text is kept. -/
theorem doclang_keeps_bold : KeepsText samplePage {} (fun _ _ b => b) none
    ⟨{ warnings := none }, none⟩ (.element (ascii "text") [] [.text (ascii "a "),
      .element (ascii "bold") [] [.text (ascii "b")], .text (ascii " c")]) := by
  have hkeeps := @doclang_keeps_text samplePage {} (fun _ _ b => b) (ascii "text") (by decide) []
    [.text (ascii "a "), .element (ascii "bold") [] [.text (ascii "b")], .text (ascii " c")]
    (by decide) none ⟨{ warnings := none }, none⟩
  exact (hkeeps.2.1 (by decide)).2 (by decide)

/-- The text of an `<rtl>` beside other text is read by `get_text` and written
nowhere. -/
theorem doclang_drops_rtl :
    ¬ ∀ (page : PageContext) (res : Resolution)
      (handlers : MarkupNode → Option BodyChild → Builder → Builder) (tag : Bytes)
      (attrs : List (Bytes × Bytes)) (children : List MarkupNode) (parent : Option BodyChild)
        (b : Builder),
      kHosts.contains tag = true → allInVocabulary children = true →
      KeepsText page res handlers parent b (.element tag attrs children) := by
  intro h
  have hdrop := h samplePage {} (fun _ _ b => b) (ascii "text") []
    [.text (ascii "a"), .element (ascii "rtl") [] [.text (ascii "b")]] none
      ⟨{ warnings := none }, none⟩
    (by decide) (by decide)
  unfold KeepsText at hdrop
  revert hdrop
  decide

end VlmConvert.L3.Doclang

import VlmConvert.L3Document.DoctagsElements

/-!
# DocTags: the text outside the tags

`inner_text` pairs every '<' with the next '>', a tag or not. A '<' that is
text and has no '>' of its own is paired with the '>' of the tag behind it, and
that tag stays in the text.

Results:
* `outside_piece`: what is left of character data and the tag behind it.
* `readsAs_content`: what is left of a closed element is what stands outside its
  tags, and longer exactly when such a '<' stands before a tag.
-/
namespace VlmConvert.L3.Doctags

open Bytes L2

/-! ## One tag at a time -/

/-- What `inner_text` leaves of a text, untrimmed. -/
def outside (text : Bytes) : Bytes := stripTags isInnerTag (text.length + 1) text

theorem stripTags_fuel (drop : Bytes → Bool) : ∀ {n m : Nat} {text : Bytes}, text.length < n →
    text.length < m → stripTags drop n text = stripTags drop m text := by
  intro n
  induction n with
  | zero => intro m text h; cases h
  | succ n ih =>
    intro m text hn hm
    obtain ⟨m, rfl⟩ := Nat.exists_eq_add_one_of_ne_zero (Nat.ne_of_gt (Nat.zero_lt_of_lt hm))
    simp only [stripTags]
    cases hlt : findByte 0x3C text with
    | none => rfl
    | some r =>
      obtain ⟨before, open_⟩ := r
      cases hgt : findByte 0x3E open_ with
      | none => simp only [hgt]
      | some r =>
        obtain ⟨tag, close⟩ := r
        have h1 := congrArg List.length (findByte_eq hlt).1
        have h2 := congrArg List.length (findByte_eq hgt).1
        have h3 := (findByte_eq hgt).2
        simp only [List.length_append] at h1 h2
        simp only [hgt]
        rw [@ih m (close.drop 1) (by rw [List.length_drop]; omega)
          (by rw [List.length_drop]; omega)]

@[simp] theorem outside_nil : outside [] = [] := rfl

section Outside
variable {before name q : Bytes}

theorem outside_plain {text : Bytes} (h : 0x3C ∉ text) : outside text = text := by
  simp only [outside, stripTags, findByte_none h]

theorem outside_open (hbefore : 0x3C ∉ before) (hq : 0x3E ∉ q) :
    outside (before ++ 0x3C :: q) = before ++ 0x3C :: q := by
  have hgt : findByte 0x3E (0x3C :: q) = none := findByte_none (by simpa using hq)
  simp only [outside, stripTags, findByte_append hbefore, hgt]

/-- The first tag of a text. -/
theorem outside_tag (hbefore : 0x3C ∉ before) (hname : 0x3E ∉ name) (rest : Bytes) :
    outside (before ++ (openTag name ++ rest)) =
      before ++ (if isInnerTag name then [] else openTag name) ++ outside rest := by
  have htext : before ++ (openTag name ++ rest) = before ++ 0x3C :: (name ++ 0x3E :: rest) := by
    simp [openTag]
  have hgt : findByte 0x3E (0x3C :: (name ++ 0x3E :: rest)) =
    some (0x3C :: name, 0x3E :: rest) := by
    rw [← List.cons_append]
    exact findByte_append (by simpa using hname)
  rw [htext]
  unfold outside
  rw [stripTags]
  simp only [findByte_append hbefore, hgt]
  rw [show List.drop 1 (0x3E :: rest) = rest from rfl,
    @stripTags_fuel isInnerTag _ (rest.length + 1) rest (by simp; omega) (by omega)]
  rfl

/-- A text holds no '<', or ends in one that is never closed, or has a first
tag. -/
theorem tag_cases (text : Bytes) : 0x3C ∉ text ∨
    (∃ before q, text = before ++ 0x3C :: q ∧ 0x3C ∉ before ∧ 0x3E ∉ q) ∨
    ∃ before name rest, text = before ++ (openTag name ++ rest) ∧ 0x3C ∉ before ∧ 0x3E ∉ name := by
  by_cases hlt : (0x3C : UInt8) ∈ text
  · obtain ⟨before, q, htext, hbefore⟩ := List.eq_append_cons_of_mem hlt
    right
    by_cases hgt : (0x3E : UInt8) ∈ q
    · obtain ⟨name, rest, rfl, hname⟩ := List.eq_append_cons_of_mem hgt
      exact .inr ⟨before, name, rest, by rw [htext]; simp [openTag], hbefore, hname⟩
    · exact .inl ⟨before, q, htext, hbefore, hgt⟩
  · exact .inl hlt

theorem outside_chars {text : Bytes} (h : 0x3C ∉ text) (rest : Bytes) :
    outside (text ++ rest) = text ++ outside rest := by
  rcases tag_cases rest with
    hrest | ⟨before, q, rfl, hbefore, hq⟩ | ⟨before, name, tail, rfl, hbefore, hname⟩
  · rw [outside_plain hrest, outside_plain (by simp [h, hrest])]
  · rw [outside_open hbefore hq, ← List.append_assoc, outside_open (by simp [h, hbefore]) hq]
  · rw [outside_tag hbefore hname, ← List.append_assoc, outside_tag (by simp [h, hbefore]) hname]
    simp

/-- Behind a '>' a text is read on its own. -/
theorem outside_split (a b : Bytes) :
    outside (a ++ 0x3E :: b) = outside (a ++ [0x3E]) ++ outside b := by
  induction hn : a.length using Nat.strongRecOn generalizing a with
  | ind n ih =>
    rcases tag_cases a with
      ha | ⟨before, q, rfl, hbefore, hq⟩ | ⟨before, name, rest, rfl, hbefore, hname⟩
    · have hgt : (0x3C : UInt8) ∉ a ++ [0x3E] := by simp [ha]
      rw [outside_plain hgt, ← outside_chars hgt]
      simp
    · have htag : ∀ rest, before ++ 0x3C :: q ++ 0x3E :: rest = before ++ (openTag q ++ rest) := by
        simp [openTag]
      rw [htag, htag, outside_tag hbefore hq, outside_tag hbefore hq, outside_nil, List.append_nil]
    · have hlen : rest.length < n := by
        rw [← hn]
        simp [openTag]
        omega
      have hrest := ih rest.length hlen rest rfl
      have hassoc : ∀ tail, before ++ (openTag name ++ rest) ++ tail =
          before ++ (openTag name ++ (rest ++ tail)) := by simp
      rw [hassoc, hassoc, outside_tag hbefore hname, outside_tag hbefore hname, hrest]
      simp

end Outside

/-! ## Character data in front of a tag -/

/-- A '<' that no '>' follows. -/
def leftOpen : Bytes → Bool
  | [] => false
  | b :: text => (b == 0x3C && !text.contains 0x3E) || leftOpen text

theorem leftOpen_append {before : Bytes} (h : 0x3C ∉ before) (text : Bytes) :
    leftOpen (before ++ text) = leftOpen text := by
  induction before with
  | nil => rfl
  | cons b before ih =>
    simp only [List.mem_cons, not_or] at h
    have hb : (b == 0x3C) = false := beq_eq_false_iff_ne.2 (Ne.symm h.1)
    rw [List.cons_append, leftOpen, hb, Bool.false_and, Bool.false_or, ih h.2]

theorem leftOpen_closed (text rest : Bytes) : leftOpen (text ++ 0x3E :: rest) = leftOpen rest := by
  induction text with
  | nil => rfl
  | cons b text ih =>
    rw [List.cons_append, leftOpen, ih]
    simp

theorem leftOpen_plain {text : Bytes} (h : 0x3C ∉ text) : leftOpen text = false := by
  have := leftOpen_append h []
  rwa [List.append_nil] at this

theorem charData_suffix (before text : Bytes) (h : charData (before ++ text) = true) :
    charData text = true := by
  induction before with
  | nil => exact h
  | cons b before ih =>
    rw [List.cons_append, charData, Bool.and_eq_true] at h
    exact ih h.2

theorem isInnerTag_cons (c : UInt8) (token : Bytes) :
    isInnerTag (c :: token) = (isAlpha c || c == 0x2F) := by
  by_cases hc : c = 0x5F
  · subst hc
    have halpha : isAlpha 0x5F = false := rfl
    simp [isInnerTag, halpha]
  · simp [isInnerTag, hc, bne]

/-- A '<' in character data is none of a tag that is taken out. -/
theorem not_innerTag {text : Bytes} (h : charData (0x3C :: text) = true) {name : Bytes}
    (hname : name.head? = text.head? ∨ text = [] ∧ name.head? = some 0x3C) :
    isInnerTag name = false := by
  rw [charData, Bool.and_eq_true] at h
  have hopen : opensTag (0x3C :: text) = false := by simpa using h.1
  cases name with
  | nil => rfl
  | cons c name =>
    rw [isInnerTag_cons]
    rcases hname with hhead | ⟨-, hhead⟩
    · cases text with
      | nil => cases hhead
      | cons d text =>
        cases hhead
        simp only [opensTag, Bool.or_eq_false_iff] at hopen
        rw [hopen.1.1, hopen.1.2]
        rfl
    · cases hhead
      rfl

/-- What stays of a tag behind character data. -/
def keptTag (piece name : Bytes) : Bytes :=
  if leftOpen piece || !isInnerTag name then openTag name else []

/-- **Character data and the tag behind it.** -/
theorem outside_piece {name : Bytes} (hname : 0x3E ∉ name) (piece : Bytes)
    (hpiece : charData piece = true) :
    outside (piece ++ openTag name) = piece ++ keptTag piece name := by
  induction hn : piece.length using Nat.strongRecOn generalizing piece with
  | ind n ih =>
    rcases tag_cases piece with
      hp | ⟨before, q, rfl, hbefore, hq⟩ | ⟨before, tag, rest, rfl, hbefore, htag⟩
    · have houtside := outside_tag hp hname []
      rw [List.append_nil, outside_nil, List.append_nil] at houtside
      rw [houtside, keptTag, leftOpen_plain hp]
      cases isInnerTag name <;> rfl
    · -- the '<' takes the '>' of the tag
      have hopen : leftOpen (before ++ 0x3C :: q) = true := by
        rw [leftOpen_append hbefore, leftOpen]
        simp [hq]
      have hinner : isInnerTag (q ++ 0x3C :: name) = false := by
        apply not_innerTag (charData_suffix before _ hpiece)
        cases q with
        | nil => exact .inr ⟨rfl, rfl⟩
        | cons c q => exact .inl rfl
      have htext : before ++ 0x3C :: q ++ openTag name =
        before ++ (openTag (q ++ 0x3C :: name) ++ []) := by
        simp [openTag]
      rw [htext, outside_tag hbefore (by simp [hq, hname]), hinner, keptTag, hopen, outside_nil]
      simp [openTag]
    · have hlen : rest.length < n := by
        rw [← hn]
        simp [openTag]
        omega
      have hdata := charData_suffix before _ hpiece
      have hinner : isInnerTag tag = false := by
        cases tag with
        | nil => rfl
        | cons c tag => exact not_innerTag hdata (.inl rfl)
      have hsplit : before ++ (openTag tag ++ rest) = before ++ 0x3C :: tag ++ 0x3E :: rest := by
        simp [openTag]
      have hrest : charData rest = true :=
        charData_suffix (before ++ openTag tag) rest (by simpa using hpiece)
      have hleft : leftOpen (before ++ (openTag tag ++ rest)) = leftOpen rest := by
        rw [hsplit, leftOpen_closed]
      have houtside := outside_tag hbefore htag (rest ++ openTag name)
      rw [ih rest.length hlen rest hrest rfl, hinner] at houtside
      have hkept : keptTag (before ++ (openTag tag ++ rest)) name = keptTag rest name := by
        rw [keptTag, hleft, keptTag]
      rw [List.append_assoc, List.append_assoc, houtside, hkept]
      simp

/-! ## Content -/

/-- The tag a part starts with. -/
def Part.tagName : Part → Bytes
  | .inline markup => markup.tagName
  | .caption _ => ascii "caption"
  | .otsl _ => ascii "otsl"
  | .classification tag => tag

/-- What stands in a part behind its first tag. -/
def Part.behind : Part → Bytes
  | .caption content => content.render Inline.render ++ closeTag (ascii "caption")
  | .otsl body => body ++ closeTag (ascii "otsl")
  | _ => []

/-- The text a part gives its element. -/
def Part.text : Part → Bytes
  | .inline (.token name) => openTag (0x5F :: name)
  | _ => []

/-- What stands outside the tags of a part that are taken out. -/
def Part.shown (part : Part) : Bytes :=
  (if isInnerTag part.tagName then [] else openTag part.tagName) ++ outside part.behind

/-- An element's text. -/
def Content.text (content : Content Part) : Bytes :=
  content.first ++ content.rest.flatMap fun part => part.1.text ++ part.2

def Content.shown (content : Content Part) : Bytes :=
  content.first ++ content.rest.flatMap fun part => part.1.shown ++ part.2

/-- No '<' is left open before a tag that is taken out. -/
def apart : Bytes → List (Part × Bytes) → Bool
  | piece, [] => !leftOpen piece
  | piece, part :: rest => !(leftOpen piece && isInnerTag part.1.tagName) && apart part.2 rest

def Content.apart (content : Content Part) : Bool := Doctags.apart content.first content.rest

/-- The content of a text element, as that of a picture or a table. -/
def Content.parts (content : Content Inline) : Content Part :=
  ⟨content.first, content.rest.map fun part => (.inline part.1, part.2)⟩

section Parts

theorem Part.render_eq (part : Part) : part.render = openTag part.tagName ++ part.behind := by
  cases part <;> simp [Part.render, Part.tagName, Part.behind, Inline.render]

theorem Part.behind_split (part : Part) (rest : Bytes) :
    outside (part.behind ++ rest) = outside part.behind ++ outside rest := by
  have hclose : ∀ text name, outside (text ++ closeTag name ++ rest) =
      outside (text ++ closeTag name) ++ outside rest := by
    intro text name
    have htext :
      ∀ tail, text ++ closeTag name ++ tail = text ++ 0x3C :: 0x2F :: name ++ 0x3E :: tail := by
      simp [closeTag]
    have hsplit := outside_split (text ++ 0x3C :: 0x2F :: name) rest
    rw [← htext, ← htext, List.append_nil] at hsplit
    exact hsplit
  cases part with
  | caption content => exact hclose _ _
  | otsl body => exact hclose _ _
  | _ => rfl

theorem Part.tagName_closed {name : Bytes} {part : Part} (h : part.closed name = true) :
    0x3E ∉ part.tagName := by
  cases part with
  | inline markup => simpa [Part.closed, Part.tagName, Inline.closed] using h
  | caption content => exact (by decide : (0x3E : UInt8) ∉ ascii "caption")
  | otsl body => exact (by decide : (0x3E : UInt8) ∉ ascii "otsl")
  | classification tag =>
    simp only [Part.closed, Bool.and_eq_true] at h
    have hplain := Scan.plainTag_of_classification h.2
    simp only [Scan.plainTag, opensElement, Bool.and_eq_true, Bool.not_eq_true',
      List.contains_eq_mem, decide_eq_false_iff_not] at hplain
    exact hplain.1.1.1.1.1.2

theorem Part.shown_inline (markup : Inline) :
    (Part.inline markup).shown = (Part.inline markup).text := by
  cases markup with
  | loc value =>
    have hinner : isInnerTag (ascii "loc_" ++ value) = true := rfl
    simp [Part.shown, Part.tagName, Inline.tagName, Part.behind, Part.text, hinner]
  | token name =>
    have hinner : isInnerTag (0x5F :: name) = false := isInnerTag_cons _ _
    simp [Part.shown, Part.tagName, Inline.tagName, Part.behind, Part.text, hinner]

theorem Part.text_sublist (part : Part) : part.text.Sublist part.shown := by
  cases part with
  | inline markup => rw [Part.shown_inline]
  | _ => exact List.nil_sublist _

theorem Content.text_sublist (content : Content Part) : content.text.Sublist content.shown := by
  have hrest : ∀ rest : List (Part × Bytes),
    (rest.flatMap fun part => part.1.text ++ part.2).Sublist
      (rest.flatMap fun part => part.1.shown ++ part.2) := by
    intro rest
    induction rest with
    | nil => exact .slnil
    | cons part rest ih =>
      rw [List.flatMap_cons, List.flatMap_cons]
      exact (part.1.text_sublist.append (.refl _)).append ih
  exact (List.Sublist.refl _).append (hrest content.rest)

/-- Content without OTSL bodies, captions and classification tags. -/
theorem Content.parts_shown (content : Content Inline) :
    content.parts.shown = content.parts.text := by
  simp only [Content.shown, Content.text, Content.parts, List.flatMap_map, Part.shown_inline]

theorem Content.parts_render (content : Content Inline) :
    content.parts.render Part.render = content.render Inline.render := by
  simp only [Content.render, Content.parts, List.flatMap_map]
  rfl

theorem Content.parts_closed {content : Content Inline} (name : Bytes)
    (h : content.closed Inline.closed = true) : content.parts.closed (Part.closed name) = true := by
  simpa [Content.closed, Content.parts, Part.closed] using h

theorem Content.parts_read (content : Content Inline) (element : Element) :
    content.parts.read Element.addText Part.read element =
      content.read Element.addText Inline.read element := by
  simp only [Content.read, Content.parts, List.foldl_map]
  rfl

/-- Reading a caption leaves what is not the caption's. -/
theorem readCaption_field {α : Type} (field : Element → α)
    (hchars : ∀ text e, field (Element.addCaptionText text e) = field e)
    (hmarkup : ∀ (markup : Inline) e, field (markup.readCaption e) = field e)
    (content : Content Inline) (e : Element) :
    field (content.readCaption e) = field { e with hasCaption := true } := by
  have hrest : ∀ (rest : List (Inline × Bytes)) (e : Element), field (rest.foldl
      (fun e part => Element.addCaptionText part.2 (part.1.readCaption e)) e) = field e := by
    intro rest
    induction rest with
    | nil => intro e; rfl
    | cons part rest ih => intro e; rw [List.foldl_cons, ih, hchars, hmarkup]
  rw [Content.readCaption, Content.read, hrest, hchars]

theorem part_read_text (part : Part) (element : Element) :
    (part.read element).text = element.text ++ part.text := by
  cases part with
  | inline markup => cases markup <;> simp [Part.read, Inline.read, Part.text, Element.addText]
  | caption content =>
    have hread := readCaption_field Element.text (fun _ _ => rfl)
      (fun markup _ => by cases markup <;> rfl) content element
    simp [Part.read, Part.text, hread]
  | _ => simp [Part.read, Part.text]

/-- The tokenizer's text of an element. -/
theorem content_read_text (content : Content Part) (element : Element) :
    (content.read Element.addText Part.read element).text = element.text ++ content.text := by
  have hrest : ∀ (rest : List (Part × Bytes)) (element : Element), (rest.foldl (fun element part =>
      Element.addText part.2 (part.1.read element)) element).text =
        element.text ++ rest.flatMap fun part => part.1.text ++ part.2 := by
    intro rest
    induction rest with
    | nil => intro element; simp
    | cons part rest ih =>
      intro element
      rw [List.foldl_cons, ih, List.flatMap_cons]
      simp [Element.addText, part_read_text]
  rw [Content.read, hrest]
  simp [Element.addText, Content.text]

end Parts

/-! ## Counting characters -/

/-- The number of characters that are not whitespace. -/
def visibleLength (text : Bytes) : Nat := charLength (visible text)

theorem charLength_append (a b : Bytes) : charLength (a ++ b) = charLength a + charLength b := by
  simp [charLength]

theorem visibleLength_append (a b : Bytes) :
    visibleLength (a ++ b) = visibleLength a + visibleLength b := by
  rw [visibleLength, visible_append, charLength_append]
  rfl

theorem visibleLength_openTag (name : Bytes) : 0 < visibleLength (openTag name) := by
  have hsplit : openTag name = [0x3C] ++ (name ++ [0x3E]) := rfl
  have hone : visibleLength [0x3C] = 1 := by decide
  rw [hsplit, visibleLength_append, hone]
  omega

theorem charLength_visible (text : Bytes) :
    charLength text = visibleLength text + charLength (text.filter isSpace) := by
  induction text with
  | nil => rfl
  | cons b text ih =>
    have hcons : ∀ t : Bytes, charLength (b :: t) = charLength [b] + charLength t :=
      charLength_append [b]
    rw [hcons, ih, visibleLength, visibleLength, visible, visible, List.filter_cons,
      List.filter_cons]
    cases isSpace b with
    | true =>
      rw [if_neg (by simp), if_pos rfl, hcons (text.filter isSpace)]
      omega
    | false =>
      rw [Bool.not_false, if_pos rfl, if_neg (by simp), hcons (text.filter _)]
      omega

theorem charLength_sublist {a b : Bytes} (h : a.Sublist b) : charLength a ≤ charLength b :=
  (h.filter _).length_le

/-- A longer text is longer when both are trimmed. -/
theorem charLength_trim_lt {a b : Bytes} (h : a.Sublist b)
    (hlt : visibleLength a < visibleLength b) :
    charLength (trim a) < charLength (trim b) := by
  have hspace := charLength_sublist ((sublist_trim h).filter isSpace)
  have hlength : ∀ t, visibleLength (trim t) = visibleLength t := fun t => by
    rw [visibleLength, visible_trim, visibleLength]
  have ha := charLength_visible (trim a)
  have hb := charLength_visible (trim b)
  rw [hlength] at ha hb
  omega

/-! ## What is left of an element -/

/-- `read` is `text` with the tags in it that a '<' swallowed. -/
structure ReadsAs (apart : Bool) (text read : Bytes) : Prop where
  sublist : text.Sublist read
  eq : apart = true → read = text
  longer : apart = false → visibleLength text < visibleLength read

/-- One tag more in front. -/
theorem ReadsAs.tag {ok : Bool} {text read : Bytes} (h : ReadsAs ok text read)
    (piece name inner : Bytes) : ReadsAs (!(leftOpen piece && isInnerTag name) && ok)
      (piece ++ ((if isInnerTag name then [] else openTag name) ++ inner ++ text))
      (piece ++ (keptTag piece name ++ inner ++ read)) := by
  have hsub : (if isInnerTag name then [] else openTag name).Sublist (keptTag piece name) := by
    unfold keptTag
    cases isInnerTag name with
    | true => exact List.nil_sublist _
    | false => simp
  have hcount : visibleLength (if isInnerTag name then [] else openTag name) ≤ visibleLength
    (keptTag piece name) := by
    unfold keptTag
    cases isInnerTag name with
    | true => exact Nat.zero_le _
    | false => simp
  have hread : visibleLength text ≤ visibleLength read := by
    cases hok : ok with
    | true => rw [h.eq hok]
    | false => exact Nat.le_of_lt (h.longer hok)
  refine ⟨(List.Sublist.refl _).append ((hsub.append (.refl _)).append h.sublist), ?_, ?_⟩
  · intro hapart
    simp only [Bool.and_eq_true, Bool.not_eq_true'] at hapart
    have hkept : keptTag piece name = if isInnerTag name then [] else openTag name := by
      unfold keptTag
      cases hleft : leftOpen piece with
      | true =>
        rw [hleft, Bool.true_and] at hapart
        rw [hapart.1]
        rfl
      | false => cases isInnerTag name <;> rfl
    rw [hkept, h.eq hapart.2]
  · intro hapart
    simp only [visibleLength_append]
    rcases Bool.and_eq_false_iff.1 hapart with hswallow | hok
    · simp only [Bool.not_eq_false', Bool.and_eq_true] at hswallow
      have hkept : keptTag piece name = openTag name := by
        rw [keptTag, hswallow.1]
        rfl
      have hpos := visibleLength_openTag name
      have hnil : visibleLength [] = 0 := rfl
      rw [hkept, hswallow.2, if_pos rfl, hnil]
      omega
    · have hlonger := h.longer hok
      omega

theorem outside_keptTag {name : Bytes} (hname : 0x3E ∉ name) (piece : Bytes)
    (hpiece : charData piece = true)
    (rest : Bytes) : outside (piece ++ (openTag name ++ rest)) =
      piece ++ (keptTag piece name ++ outside rest) := by
  have htext : ∀ tail, piece ++ (openTag name ++ tail) = piece ++ 0x3C :: name ++ 0x3E :: tail := by
    simp [openTag]
  have hpiece' := outside_piece hname piece hpiece
  rw [← List.append_nil (openTag name), htext] at hpiece'
  rw [htext, outside_split, hpiece', List.append_assoc]

theorem readsAs_parts {name : Bytes} (hname : 0x3E ∉ name) (owner : Bytes) :
    ∀ (parts : List (Part × Bytes))
    (piece : Bytes), charData piece = true →
    (parts.all fun part => part.1.closed owner && charData part.2) = true →
    ReadsAs (apart piece parts) (piece ++ parts.flatMap fun part => part.1.shown ++ part.2)
      (outside (piece ++
      ((parts.flatMap fun part => part.1.render ++ part.2) ++ closeTag name))) := by
  intro parts
  induction parts with
  | nil =>
    intro piece hpiece _
    have hinner : isInnerTag (0x2F :: name) = true := isInnerTag_cons _ _
    have hempty : ReadsAs true [] (outside []) := ⟨.slnil, fun _ => rfl, fun h => by cases h⟩
    have htag := hempty.tag piece (0x2F :: name) []
    have houtside := @outside_keptTag (0x2F :: name) (by simpa using hname) piece hpiece []
    rw [List.append_nil] at houtside
    simpa [apart, hinner, Scan.closeTag_eq, houtside] using htag
  | cons part parts ih =>
    intro piece hpiece hparts
    simp only [List.all_cons, Bool.and_eq_true] at hparts
    obtain ⟨⟨hclosed, hnext⟩, hrest⟩ := hparts
    have htag := (ih part.2 hnext hrest).tag piece part.1.tagName (outside part.1.behind)
    have houtside := outside_keptTag (Part.tagName_closed hclosed) piece hpiece
      (part.1.behind ++
        (part.2 ++ ((parts.flatMap fun part => part.1.render ++ part.2) ++ closeTag name)))
    rw [part.1.behind_split] at houtside
    have htext :
      piece ++ (((part :: parts).flatMap fun part => part.1.render ++ part.2) ++ closeTag name) =
        piece ++ (openTag part.1.tagName ++ (part.1.behind ++
          (part.2 ++ ((parts.flatMap fun part => part.1.render ++ part.2) ++ closeTag name)))) := by
      rw [List.flatMap_cons, part.1.render_eq]
      simp only [List.append_assoc]
    rw [htext, houtside]
    simpa [apart, Part.shown, List.append_assoc] using htag

/-- **What `inner_text` leaves of a closed element**: what stands outside its
tags, and longer as soon as a '<' is left open before a tag. -/
theorem readsAs_content {name : Bytes} (hname : 0x3E ∉ name) (halpha : isInnerTag name = true)
    {content : Content Part} {owner : Bytes} (h : content.closed (Part.closed owner) = true) :
    ReadsAs content.apart content.shown
      (outside (openTag name ++ (content.render Part.render ++ closeTag name))) := by
  simp only [Content.closed, Bool.and_eq_true] at h
  have hopen := @outside_tag [] name (by simp) hname (content.render Part.render ++ closeTag name)
  rw [halpha, if_pos rfl] at hopen
  simp only [List.nil_append] at hopen
  rw [hopen, Content.render, List.append_assoc]
  exact readsAs_parts hname owner content.rest content.first h.1 h.2

end VlmConvert.L3.Doctags

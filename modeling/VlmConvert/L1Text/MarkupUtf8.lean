import VlmConvert.Core.Utf8
import VlmConvert.L1Text.MarkupText

/-!
# UTF-8 through the markup parser

The parser (`src/mapping/markup_tree.cpp`) scans bytes, takes every byte from
0x80 on into a name, and reads a tag in a window of `kMaxTagBytes` that may end
within a character. Every cut it makes is at an ASCII byte all the same: a name
or a value that runs into the end of the window belongs to a tag without its
'>', which is not read.

Result: `utf8_parseMarkup`, the tree of a UTF-8 text holds UTF-8 only.
-/
namespace VlmConvert.L1

open Bytes

/-! ## Entities -/

/-- A reference to no character stands for U+FFFD. -/
theorem appendUtf8_encode (cp : Nat) : ∃ c : Char, appendUtf8 cp = String.utf8EncodeChar c := by
  have hchar : ∀ n : Nat, n.isValidChar → (if n < 0x80 then [n.toUInt8]
      else if n < 0x800 then [(0xC0 + n / 64).toUInt8, (0x80 + n % 64).toUInt8]
      else if n < 0x10000 then
        [(0xE0 + n / 4096).toUInt8, (0x80 + n / 64 % 64).toUInt8, (0x80 + n % 64).toUInt8]
      else [(0xF0 + n / 262144).toUInt8, (0x80 + n / 4096 % 64).toUInt8,
        (0x80 + n / 64 % 64).toUInt8,
        (0x80 + n % 64).toUInt8]) = String.utf8EncodeChar (Char.ofNat n) := by
    intro n hn
    have hmax : n < 0x110000 := by
      rcases hn with hn | hn
      · omega
      · exact hn.2
    rw [String.utf8EncodeChar, Utf8.val_ofNat hn]
    by_cases h1 : n < 0x80
    · rw [if_pos h1, if_pos (show n ≤ 0x7F by omega)]
    · rw [if_neg h1, if_neg (show ¬ n ≤ 0x7F by omega)]
      by_cases h2 : n < 0x800
      · rw [if_pos h2, if_pos (show n ≤ 0x7FF by omega),
          Nat.mod_eq_of_lt (show n / 64 < 0x20 by omega), Nat.add_comm 0xC0, Nat.add_comm 0x80]
      · rw [if_neg h2, if_neg (show ¬ n ≤ 0x7FF by omega)]
        by_cases h3 : n < 0x10000
        · rw [if_pos h3, if_pos (show n ≤ 0xFFFF by omega),
            Nat.mod_eq_of_lt (show n / 4096 < 0x10 by omega), Nat.add_comm 0xE0, Nat.add_comm 0x80,
            Nat.add_comm 0x80]
        · rw [if_neg h3, if_neg (show ¬ n ≤ 0xFFFF by omega),
            Nat.mod_eq_of_lt (show n / 262144 < 0x08 by omega), Nat.add_comm 0xF0,
              Nat.add_comm 0x80,
            Nat.add_comm 0x80, Nat.add_comm 0x80]
  refine ⟨_, hchar (if cp = 0 ∨ cp > 0x10FFFF ∨ (0xD800 ≤ cp ∧ cp ≤ 0xDFFF) then 0xFFFD else cp) ?_⟩
  split
  · exact Or.inr ⟨by omega, by omega⟩
  · rename_i h
    unfold Nat.isValidChar
    omega

theorem appendUtf8_utf8 (cp : Nat) : Utf8 (appendUtf8 cp) := by
  obtain ⟨c, hc⟩ := appendUtf8_encode cp
  rw [hc]
  exact Utf8.encode c

theorem entity_utf8 {name out : Bytes} (h : entity name = some out) : Utf8 out := by
  unfold entity at h
  split at h
  · cases h; exact Utf8.byte (by decide)
  split at h
  · cases h; exact Utf8.byte (by decide)
  split at h
  · cases h; exact Utf8.byte (by decide)
  split at h
  · cases h; exact Utf8.byte (by decide)
  split at h
  · cases h; exact Utf8.byte (by decide)
  split at h
  · cases h; exact appendUtf8_utf8 _
  split at h
  · obtain ⟨-, h⟩ := Option.ite_none_left_eq_some.1 h
    obtain ⟨cp, -, rfl⟩ := Option.map_eq_some_iff.1 h
    exact appendUtf8_utf8 cp
  · cases h

/-- Decoding replaces what stands between an '&' and a ';'. -/
theorem decodeEntities_utf8 {text : Bytes} (h : Utf8 text) : Utf8 (decodeEntities text) := by
  -- `before` is what is decoded already, up to within a character
  have haux : ∀ (n : Nat) (before l : Bytes), Utf8 (before ++ l) →
    Utf8 (before ++ decodeEntitiesAux n l) := by
    intro n
    induction n with
    | zero => exact fun before l h => h
    | succ n ih =>
      intro before l h
      cases l with
      | nil => exact h
      | cons b rest =>
        have hcopy : Utf8 (before ++ b :: decodeEntitiesAux n rest) := by
          rw [List.append_cons]
          exact ih (before ++ [b]) rest (by rwa [← List.append_cons])
        rw [decodeEntitiesAux]
        split
        · exact hcopy
        · rename_i hb
          have hamp : b = 0x26 := by simpa using hb
          subst hamp
          split
          · exact hcopy
          · rename_i name semi hfind
            split
            · exact hcopy
            · split
              · rename_i out hentity
                obtain ⟨hbefore, hrest⟩ := Utf8.split (by decide) h
                rw [(findByte_eq hfind).1, (findByte_head hfind).1] at hrest
                have hsemi : Utf8 (semi.drop 1) := (Utf8.split (by decide) hrest).2
                rw [← List.append_assoc]
                exact ih (before ++ out) _ ((hbefore.append (entity_utf8 hentity)).append hsemi)
              · exact hcopy
  exact haux text.length [] text h

/-! ## Tags -/

theorem toLower_low {c : UInt8} (hc : c < 0x80) : toLower c < 0x80 := by
  unfold toLower
  split
  · rename_i h
    simp only [Bool.and_eq_true, decide_eq_true_eq] at h
    have hle := UInt8.le_iff_toNat_le.1 h.2
    have h5 : (0x5A : UInt8).toNat = 90 := rfl
    rw [UInt8.lt_iff_toNat_lt, UInt8.toNat_add]
    change (c.toNat + 32) % 256 < 128
    omega
  · exact hc

/-- `tolower` changes ASCII letters only. -/
theorem toLower_high {c : UInt8} (hc : 0x80 ≤ c) : toLower c = c := by
  unfold toLower
  rw [if_neg]
  simp only [Bool.and_eq_true, decide_eq_true_eq, not_and]
  intro _ h
  exact absurd (UInt8.le_trans hc h) (by decide)

theorem fold_utf8 {mode : MarkupMode} {name : Bytes} (h : Utf8 name) : Utf8 (fold mode name) := by
  cases mode with
  | xml => exact h
  | html =>
    have hmap : fold .html name = name.flatMap fun c => [toLower c] := List.map_eq_flatMap
    rw [hmap]
    exact h.flatMap (fun c hc => Utf8.byte (toLower_low hc)) fun c hc => by rw [toLower_high hc]

structure Tag.Utf8 (tag : Tag) : Prop where
  name : VlmConvert.Utf8 tag.name
  attrs : ∀ attr ∈ tag.attrs, VlmConvert.Utf8 attr.1 ∧ VlmConvert.Utf8 attr.2

theorem isSpace_low {c : UInt8} (h : isSpace c = true) : c < 0x80 := by
  simp only [isSpace, Bool.or_eq_true, beq_iff_eq, Bool.and_eq_true, decide_eq_true_eq] at h
  rcases h with rfl | ⟨-, h⟩
  · decide
  · exact UInt8.lt_of_le_of_lt h (by decide)

/-- A name ends at the end of the text or at an ASCII byte. -/
theorem attrName_split (l : Bytes) : l = (attrName l).1 ++ (attrName l).2 ∧
    ∀ c rest, (attrName l).2 = c :: rest → c < 0x80 := by
  induction l with
  | nil => exact ⟨rfl, by simp [attrName]⟩
  | cons b l ih =>
    unfold attrName
    split
    · rename_i hstop
      refine ⟨rfl, fun c rest hc => ?_⟩
      obtain ⟨rfl, -⟩ := List.cons.inj hc
      simp only [Bool.or_eq_true, beq_iff_eq] at hstop
      rcases hstop with ((hspace | rfl) | rfl) | hclose
      · exact isSpace_low hspace
      · decide
      · decide
      · cases l with
        | nil => simp [atSelfClose] at hclose
        | cons d l =>
          simp only [atSelfClose, Bool.and_eq_true, beq_iff_eq] at hclose
          rw [hclose.1]
          decide
    · exact ⟨congrArg (List.cons b) ih.1, ih.2⟩

/-- A value that leaves something of the window is all in it. -/
theorem attrValue_utf8 {l value after : Bytes} (h : attrValue l = some (value, after))
    (hl : Utf8.Begun l)
    (hafter : after ≠ []) : Utf8 value ∧ Utf8.Begun after ∧ after <:+ l := by
  have hspace : Utf8.Begun (l.dropWhile isSpace) := hl.dropWhile fun _ hc => isSpace_low hc
  unfold attrValue at h
  split at h
  · rename_i rest hrest
    rw [hrest] at hspace
    have hsuffix : rest <:+ l := (List.suffix_cons _ rest).trans (hrest ▸ List.dropWhile_suffix _)
    have hvalue : Utf8.Begun (rest.dropWhile isSpace) :=
      (hspace.cons (by decide)).dropWhile fun _ hc => isSpace_low hc
    split at h
    · cases h
      exact absurd rfl hafter
    · rename_i q inner hinner
      rw [hinner] at hvalue
      have hin : (q :: inner) <:+ l := (hinner ▸ List.dropWhile_suffix _).trans hsuffix
      split at h
      · rename_i hquote
        have hq : q < 0x80 := by
          simp only [Bool.or_eq_true, beq_iff_eq] at hquote
          rcases hquote with rfl | rfl
          · decide
          · decide
        split at h
        · cases h
        · rename_i value' close hfind
          cases h
          have hbegun := hvalue.cons hq
          have heq := (findByte_eq hfind).1
          rw [heq, (findByte_head hfind).1] at hbegun
          obtain ⟨h1, h2⟩ := hbegun.split hq
          refine ⟨decodeEntities_utf8 h1, h2, (List.drop_suffix 1 close).trans ?_⟩
          exact (heq ▸ List.suffix_append _ _).trans ((List.suffix_cons q inner).trans hin)
      · cases h
        have hstop : ∀ c, (!isSpace c && c != 0x3E) = false → c < 0x80 := by
          intro c hc
          rw [Bool.and_eq_false_iff] at hc
          rcases hc with hc | hc
          · exact isSpace_low (by simpa using hc)
          · have : c = 0x3E := by simpa using hc
            rw [this]
            decide
        obtain ⟨h1, h2⟩ := hvalue.takeWhile hstop hafter
        exact ⟨decodeEntities_utf8 h1, h2, (List.dropWhile_suffix _).trans hin⟩
  · cases h
    exact ⟨Utf8.nil, hspace, List.dropWhile_suffix _⟩

theorem readAttrs_nil (mode : MarkupMode) (n : Nat) (tag : Tag) :
    readAttrs mode n tag [] = none := by
  cases n <;> rfl

/-- A tag that ends in the window is UTF-8, whatever the window cuts. -/
theorem readAttrs_utf8 {mode : MarkupMode} : ∀ {n : Nat} {tag tag' : Tag} {l left : Bytes},
    readAttrs mode n tag l = some (tag', left) → Utf8.Begun l → tag.Utf8 →
    tag'.Utf8 ∧ (0x3E :: left) <:+ l := by
  intro n
  induction n with
  | zero => intro tag tag' l left h; cases h
  | succ n ih =>
    intro tag tag' l left h hl htag
    have hspace : Utf8.Begun (l.dropWhile isSpace) := hl.dropWhile fun _ hc => isSpace_low hc
    have hsuffix : l.dropWhile isSpace <:+ l := List.dropWhile_suffix _
    rw [readAttrs] at h
    split at h
    · cases h
    · rename_i c rest hrest
      rw [hrest] at hspace hsuffix
      split at h
      · rename_i hc
        cases h
        have hgt : c = 0x3E := by simpa using hc
        exact ⟨htag, hgt ▸ hsuffix⟩
      · split at h
        · rename_i hclose
          cases h
          refine ⟨⟨htag.name, htag.attrs⟩, List.IsSuffix.trans ?_ hsuffix⟩
          cases rest with
          | nil => simp [atSelfClose] at hclose
          | cons d rest =>
            simp only [atSelfClose, Bool.and_eq_true, beq_iff_eq] at hclose
            rw [hclose.2]
            exact List.suffix_cons _ _
        · obtain ⟨hsplit, hstop⟩ := attrName_split (c :: rest)
          split at h
          · rename_i after hname
            rw [hname] at hstop
            have hlow : c < 0x80 := by
              rw [hname] at hsplit
              exact hstop c rest hsplit.symm
            obtain ⟨h1, h2⟩ := ih h (hspace.cons hlow) htag
            exact ⟨h1, h2.trans ((List.suffix_cons c rest).trans hsuffix)⟩
          · rename_i name after hne hname
            rw [hname] at hsplit hstop
            split at h
            · cases h
            · rename_i value after' hvalue
              have hafter' : after' ≠ [] := by
                rintro rfl
                rw [readAttrs_nil] at h
                cases h
              cases after with
              | nil =>
                cases hvalue
                exact absurd rfl hafter'
              | cons d after =>
                have hd := hstop d after rfl
                rw [hsplit] at hspace
                obtain ⟨hname', more, hbegun⟩ := hspace.split hd
                obtain ⟨hvalue', hleft, hsuffix'⟩ :=
                  attrValue_utf8 hvalue ⟨more, Utf8.cons hd hbegun⟩ hafter'
                have htag' : Tag.Utf8 (if tag.closing then tag
                    else { tag with attrs := tag.attrs ++ [(fold mode name, value)] }) := by
                  split
                  · exact htag
                  · refine ⟨htag.name, fun attr hattr => ?_⟩
                    rcases List.mem_append.1 hattr with hattr | hattr
                    · exact htag.attrs attr hattr
                    · rw [List.mem_singleton.1 hattr]
                      exact ⟨fold_utf8 hname', hvalue'⟩
                obtain ⟨h1, h2⟩ := ih h hleft htag'
                refine ⟨h1, h2.trans (hsuffix'.trans (List.IsSuffix.trans ?_ hsuffix))⟩
                exact ⟨name, hsplit.symm⟩

theorem isNameChar_low {c : UInt8} (h : isNameChar c = false) : c < 0x80 := by
  simp only [isNameChar, Bool.or_eq_false_iff, decide_eq_false_iff_not, UInt8.not_le] at h
  exact h.2

theorem readTag_utf8 {mode : MarkupMode} {tag : Tag} {rest left : Bytes}
    (h : readTag mode (0x3C :: rest) = some (tag, left)) (hl : Utf8.Begun (0x3C :: rest)) :
    tag.Utf8 ∧ (0x3E :: left) <:+ rest := by
  have hrest : Utf8.Begun rest := hl.cons (by decide)
  unfold readTag at h
  rw [List.drop_one, List.tail_cons] at h
  dsimp only at h
  have hbody : Utf8.Begun (if rest.head? == some 0x2F then rest.drop 1 else rest) ∧
      (if rest.head? == some 0x2F then rest.drop 1 else rest) <:+ rest := by
    split
    · rename_i hslash
      obtain ⟨l, rfl⟩ := List.head?_eq_some_iff.1 (beq_iff_eq.1 hslash)
      exact ⟨hrest.cons (by decide), List.drop_suffix 1 _⟩
    · exact ⟨hrest, List.suffix_refl _⟩
  generalize (if rest.head? == some 0x2F then rest.drop 1 else rest) = body at h hbody
  obtain ⟨hbegun, hsuffix⟩ := hbody
  split at h
  · cases h
  · rename_i c name hname
    split at h
    · cases h
    · have hne : body.dropWhile isNameChar ≠ [] := by
        intro hnil
        rw [hnil, readAttrs_nil] at h
        cases h
      obtain ⟨h1, h2⟩ := hbegun.takeWhile (fun _ hc => isNameChar_low hc) hne
      rw [hname] at h1
      obtain ⟨h3, h4⟩ := readAttrs_utf8 h h2 ⟨fold_utf8 h1, by simp⟩
      exact ⟨h3, h4.trans ((List.dropWhile_suffix _).trans hsuffix)⟩

/-! ## Events -/

def Event.Utf8 : Event → Prop
  | .text raw => VlmConvert.Utf8 raw
  | .openTag tag => tag.Utf8
  | .closeTag _ => True

/-- Both sides of an ASCII needle. -/
theorem findSub_utf8 {needle l before rest : Bytes} (hneedle : needle ≠ [] ∧ ∀ c ∈ needle, c < 0x80)
    (h : Utf8 l) (hfind : findSub needle l = some (before, rest)) :
    Utf8 before ∧ Utf8 (rest.drop needle.length) := by
  obtain ⟨tail, htail⟩ := findSub_starts hfind
  obtain ⟨c, needle, rfl⟩ := List.exists_cons_of_ne_nil hneedle.1
  rw [findSub_eq hfind, ← htail, List.cons_append] at h
  obtain ⟨h1, h2⟩ := Utf8.split (hneedle.2 c List.mem_cons_self) h
  refine ⟨h1, ?_⟩
  rw [← htail, List.drop_left]
  exact h2.ascii_append fun d hd => hneedle.2 d (List.mem_cons_of_mem _ hd)

theorem behind_utf8 {needle l : Bytes} (hneedle : needle ≠ [] ∧ ∀ c ∈ needle, c < 0x80)
    (h : Utf8 l) :
    Utf8 (behind needle l) := by
  unfold behind
  split
  · exact Utf8.nil
  · rename_i hfind
    exact (findSub_utf8 hneedle h hfind).2

/-- Both sides of an ASCII byte. -/
theorem findByte_utf8 {c : UInt8} {l before rest : Bytes} (hc : c < 0x80) (h : Utf8 l)
    (hfind : findByte c l = some (before, rest)) : Utf8 before ∧ Utf8 (rest.drop 1) := by
  rw [(findByte_eq hfind).1, (findByte_head hfind).1] at h
  exact Utf8.split hc h

theorem isPrefixOf_utf8 {needle l : Bytes} (hneedle : ∀ c ∈ needle, c < 0x80)
    (hpre : needle.isPrefixOf l = true) (h : Utf8 l) : Utf8 (l.drop needle.length) := by
  rw [← isPrefixOf_drop hpre] at h
  exact h.ascii_append hneedle

/-- What the parser looks for is ASCII. -/
theorem needles_low :
    ∀ needle ∈ [ascii "<!--", ascii "-->", ascii "<![CDATA[", ascii "]]>", [0x3E], ascii "&amp;"],
    needle ≠ [] ∧ ∀ c ∈ needle, c < 0x80 := by
  decide +kernel

theorem literal_utf8 {data : Bytes} (h : Utf8 data) :
    Utf8 (data.flatMap fun c => if c == 0x26 then ascii "&amp;" else [c]) := by
  refine h.flatMap (fun c hc => ?_) (fun c hc => if_neg fun h26 => ?_)
  · split
    · exact Utf8.of_ascii (needles_low _ (by simp)).2
    · exact Utf8.byte hc
  · rw [beq_iff_eq.1 h26] at hc
    exact absurd hc (by decide)

theorem findFolded_head {closer l before rest : Bytes}
    (h : findFolded closer l = some (before, rest)) :
    rest = 0x3C :: rest.drop 1 := by
  induction l generalizing before with
  | nil => cases h
  | cons b l ih =>
    rw [findFolded] at h
    split at h
    · rename_i hb
      cases h
      rw [beq_iff_eq.1 (Bool.and_eq_true_iff.1 hb).1]
      rfl
    · obtain ⟨r, hr, heq⟩ := Option.map_eq_some_iff.1 h
      cases heq
      exact ih hr

/-- The events of a place, the text still pending and the rest. -/
def EventsUtf8 (r : List Event × Bytes × Bytes) : Prop :=
  (∀ event ∈ r.1, event.Utf8) ∧ Utf8 r.2.1 ∧ Utf8 r.2.2

theorem rawTextEvents_utf8 (name : Bytes) {rest : Bytes} (h : Utf8 rest) :
    (∀ event ∈ (rawTextEvents name rest).1, event.Utf8) ∧ Utf8 (rawTextEvents name rest).2 := by
  unfold rawTextEvents
  split
  · exact ⟨by simp, Utf8.nil⟩
  · rename_i body close hfind
    have hclose := findFolded_head hfind
    rw [findFolded_eq hfind, hclose] at h
    obtain ⟨h1, h2⟩ := Utf8.split (by decide) h
    have h3 : Utf8 close := hclose ▸ Utf8.cons (by decide) h2
    constructor
    · intro event hevent
      simp only [List.mem_cons, List.not_mem_nil, or_false] at hevent
      rcases hevent with rfl | rfl
      · exact h1
      · trivial
    · dsimp only
      split
      · exact Utf8.nil
      · rename_i hgt
        exact (findByte_utf8 (by decide) h3 hgt).2

theorem openEvents_utf8 (mode : MarkupMode) {raw open_ : Bytes} (hraw : Utf8 raw)
    (hopen : Utf8 (0x3C :: open_)) : EventsUtf8 (openEvents mode raw (0x3C :: open_)) := by
  have htext : ∀ event ∈ [Event.text raw], event.Utf8 := by
    intro event hevent
    rw [List.mem_singleton.1 hevent]
    exact hraw
  have hbehind : Utf8 open_ := (Utf8.split (a := []) (by decide) hopen).2
  unfold openEvents
  split
  · rename_i hpre
    have hrest := isPrefixOf_utf8 (needles_low _ (by simp)).2 hpre hopen
    exact ⟨htext, Utf8.nil, behind_utf8 (needles_low _ (by simp)) hrest⟩
  split
  · rename_i hpre
    have hdata := isPrefixOf_utf8 (needles_low _ (by simp)).2 hpre hopen
    refine ⟨?_, Utf8.nil, behind_utf8 (needles_low _ (by simp)) hdata⟩
    intro event hevent
    simp only [List.mem_cons, List.not_mem_nil, or_false] at hevent
    rcases hevent with rfl | rfl
    · exact hraw
    · refine literal_utf8 ?_
      split
      · exact hdata
      · rename_i hfind
        exact (findSub_utf8 (needles_low _ (by simp)) hdata hfind).1
  split
  · rename_i hmark
    have hrest : Utf8 ((0x3C :: open_).drop 2) := by
      cases open_ with
      | nil => exact Utf8.nil
      | cons c open_ =>
        have hc : c < 0x80 := by
          simp only [List.drop_succ_cons, List.drop_zero, List.head?_cons, Bool.or_eq_true,
            beq_iff_eq, Option.some.injEq] at hmark
          rcases hmark with rfl | rfl
          · decide
          · decide
        exact (Utf8.split (a := []) hc hbehind).2
    exact ⟨htext, Utf8.nil, behind_utf8 (needles_low _ (by simp)) hrest⟩
  split
  · exact ⟨by simp, hraw.append (Utf8.byte (by decide)), hbehind⟩
  · rename_i tag left hread
    have htake : (0x3C :: open_).take kMaxTagBytes = 0x3C :: open_.take (kMaxTagBytes - 1) := by
      rw [List.take_cons (by decide)]
    rw [htake] at hread ⊢
    have hbegun : Utf8.Begun (0x3C :: open_.take (kMaxTagBytes - 1)) := by
      rw [← htake]
      exact Utf8.Begun.take hopen kMaxTagBytes
    obtain ⟨htag, used, hused⟩ := readTag_utf8 hread hbegun
    have hrest : Utf8
      ((0x3C :: open_).drop ((0x3C :: open_.take (kMaxTagBytes - 1)).length - left.length)) := by
      have hlen : (0x3C :: open_.take (kMaxTagBytes - 1)).length - left.length =
        used.length + 2 := by
        rw [← hused]
        simp only [List.length_cons, List.length_append]
        omega
      have hsource : open_ = used ++ 0x3E :: (left ++ open_.drop (kMaxTagBytes - 1)) := by
        rw [← List.cons_append, ← List.append_assoc, hused, List.take_append_drop]
      rw [hlen, List.drop_succ_cons]
      rw [hsource] at hbehind
      have hdrop : open_.drop (used.length + 1) = left ++ open_.drop (kMaxTagBytes - 1) := by
        conv_lhs => rw [hsource, List.append_cons]
        exact List.drop_left' (by simp)
      rw [hdrop]
      exact (Utf8.split (by decide) hbehind).2
    dsimp only
    split
    · refine ⟨?_, Utf8.nil, hrest⟩
      intro event hevent
      simp only [List.mem_cons, List.not_mem_nil, or_false] at hevent
      rcases hevent with rfl | rfl
      · exact hraw
      · trivial
    · split
      · obtain ⟨h1, h2⟩ := rawTextEvents_utf8 tag.name hrest
        refine ⟨?_, Utf8.nil, h2⟩
        intro event hevent
        simp only [List.mem_cons] at hevent
        rcases hevent with rfl | rfl | hevent
        · exact hraw
        · exact htag
        · exact h1 event hevent
      · refine ⟨?_, Utf8.nil, hrest⟩
        intro event hevent
        simp only [List.mem_cons, List.not_mem_nil, or_false] at hevent
        rcases hevent with rfl | rfl
        · exact hraw
        · exact htag

theorem eventsLoop_utf8 (mode : MarkupMode) :
    ∀ {n : Nat} {pending rest : Bytes}, Utf8 pending → Utf8 rest →
    ∀ event ∈ eventsLoop mode n pending rest, event.Utf8 := by
  intro n
  induction n with
  | zero =>
    intro pending rest hp hr event hevent
    rw [eventsLoop, List.mem_singleton] at hevent
    rw [hevent]
    exact hp.append hr
  | succ n ih =>
    intro pending rest hp hr event hevent
    rw [eventsLoop] at hevent
    split at hevent
    · rw [List.mem_singleton.1 hevent]
      exact hp.append hr
    · rename_i before open_ hfind
      obtain ⟨h1, h2⟩ := findByte_utf8 (by decide) hr hfind
      have hopen := openEvents_utf8 mode (hp.append h1) (Utf8.cons (by decide) h2)
      rw [← (findByte_head hfind).1] at hopen
      rcases List.mem_append.1 hevent with hevent | hevent
      · exact hopen.1 event hevent
      · exact ih hopen.2.1 hopen.2.2 event hevent

/-! ## The tree -/

/-- The node's own text, tag and attributes. -/
def MarkupNode.OwnUtf8 : MarkupNode → Prop
  | .text t => VlmConvert.Utf8 t
  | .element tag attrs _ =>
    VlmConvert.Utf8 tag ∧ ∀ attr ∈ attrs, VlmConvert.Utf8 attr.1 ∧ VlmConvert.Utf8 attr.2

mutual
/-- The node and all below it. -/
def MarkupNode.Utf8 : MarkupNode → Prop
  | .text t => VlmConvert.Utf8 t
  | .element tag attrs children => MarkupNode.OwnUtf8 (.element tag attrs []) ∧ Utf8In children
def Utf8In : List MarkupNode → Prop
  | [] => True
  | child :: rest => child.Utf8 ∧ Utf8In rest
end

/-- The nodes of a tree. -/
inductive MarkupNode.Holds (root : MarkupNode) : MarkupNode → Prop
  | root : Holds root root
  | child {node child : MarkupNode} : Holds root node → child ∈ node.children → Holds root child

theorem utf8In_iff {l : List MarkupNode} : Utf8In l ↔ ∀ node ∈ l, node.Utf8 := by
  induction l with
  | nil => simp [Utf8In]
  | cons node l ih => rw [Utf8In, ih, List.forall_mem_cons]

theorem MarkupNode.Utf8.own {node : MarkupNode} (h : node.Utf8) : node.OwnUtf8 := by
  cases node with
  | text text => exact h
  | element tag attrs children => exact h.1

theorem MarkupNode.Utf8.holds {root node : MarkupNode} (h : root.Utf8) (hnode : root.Holds node) :
    node.Utf8 := by
  induction hnode with
  | root => exact h
  | @child node child _ hchild ih =>
    cases node with
    | text text => cases hchild
    | element tag attrs children => exact utf8In_iff.1 ih.2 child hchild

structure Builder.Utf8 (b : Builder) : Prop where
  frames : ∀ f ∈ b.frames, MarkupNode.Utf8 (.element f.tag f.attrs f.children)
  root : Utf8In b.root

section Tree
variable {b : Builder}

theorem utf8In_concat {l : List MarkupNode} {node : MarkupNode} (hl : Utf8In l)
    (hnode : node.Utf8) :
    Utf8In (l ++ [node]) := by
  rw [utf8In_iff] at hl ⊢
  intro x hx
  rcases List.mem_append.1 hx with hx | hx
  · exact hl x hx
  · exact List.mem_singleton.1 hx ▸ hnode

theorem utf8In_extendText {l : List MarkupNode} {raw : Bytes} (hl : Utf8In l)
    (hraw : VlmConvert.Utf8 raw) :
    Utf8In (extendText l raw) := by
  unfold extendText
  split
  · rename_i text hlast
    obtain ⟨front, rfl⟩ := List.getLast?_eq_some_iff.1 hlast
    rw [List.dropLast_concat]
    rw [utf8In_iff] at hl
    have hfront : Utf8In front := utf8In_iff.2 fun x hx => hl x (List.mem_append_left _ hx)
    have htext : VlmConvert.Utf8 text :=
      hl (.text text) (List.mem_append_right _ (List.mem_singleton_self _))
    exact utf8In_concat hfront (htext.append (decodeEntities_utf8 hraw))
  · exact utf8In_concat hl (decodeEntities_utf8 hraw)

theorem Builder.Utf8.addChild (h : b.Utf8) {node : MarkupNode} (hnode : node.Utf8) :
    (b.addChild node).Utf8 := by
  obtain ⟨frames, root⟩ := b
  cases frames with
  | nil => exact ⟨h.frames, utf8In_concat h.root hnode⟩
  | cons f rest =>
    have hf := h.frames f List.mem_cons_self
    refine ⟨List.forall_mem_cons.2 ⟨⟨hf.1, utf8In_concat hf.2 hnode⟩, ?_⟩, h.root⟩
    exact fun g hg => h.frames g (List.mem_cons_of_mem _ hg)

theorem Builder.Utf8.text (h : b.Utf8) {raw : Bytes} (hraw : VlmConvert.Utf8 raw) :
    (b.text raw).Utf8 := by
  obtain ⟨frames, root⟩ := b
  unfold Builder.text
  split
  · exact h
  · cases frames with
    | nil => exact ⟨h.frames, utf8In_extendText h.root hraw⟩
    | cons f rest =>
      have hf := h.frames f List.mem_cons_self
      refine ⟨List.forall_mem_cons.2 ⟨⟨hf.1, utf8In_extendText hf.2 hraw⟩, ?_⟩, h.root⟩
      exact fun g hg => h.frames g (List.mem_cons_of_mem _ hg)

theorem Builder.Utf8.pop (h : b.Utf8) : b.pop.Utf8 := by
  obtain ⟨frames, root⟩ := b
  cases frames with
  | nil => exact h
  | cons f rest =>
    have hrest : Builder.Utf8 ⟨rest, root⟩ :=
      ⟨fun g hg => h.frames g (List.mem_cons_of_mem _ hg), h.root⟩
    exact hrest.addChild (h.frames f List.mem_cons_self)

theorem Builder.Utf8.popN (n : Nat) : ∀ {b : Builder}, b.Utf8 → (b.popN n).Utf8 := by
  induction n with
  | zero => exact fun h => h
  | succ n ih => exact fun h => ih h.pop

theorem Builder.Utf8.openTag (h : b.Utf8) (mode : MarkupMode) {tag : Tag} (htag : tag.Utf8) :
    (b.openTag mode tag).Utf8 := by
  have hnode : MarkupNode.Utf8 (.element tag.name tag.attrs []) :=
    ⟨⟨htag.name, htag.attrs⟩, trivial⟩
  have hclosed : (if mode = .html then b.implicitClose tag.name else b).Utf8 := by
    split
    · obtain ⟨n, hn⟩ := implicitClose_popN b tag.name
      rw [hn]
      exact h.popN n
    · exact h
  unfold Builder.openTag
  dsimp only
  generalize (if mode = .html then b.implicitClose tag.name else b) = closed at hclosed ⊢
  split
  · exact ⟨List.forall_mem_cons.2 ⟨hnode, hclosed.frames⟩, hclosed.root⟩
  · exact hclosed.addChild hnode

/-- One call of the parser. -/
theorem Builder.Utf8.step (h : b.Utf8) (mode : MarkupMode) {event : Event} (hevent : event.Utf8) :
    (b.step mode event).Utf8 := by
  cases event with
  | text raw => exact h.text hevent
  | openTag tag => exact h.openTag mode hevent
  | closeTag name =>
    obtain ⟨n, hn⟩ := closeTag_popN b name
    rw [Builder.step, hn]
    exact h.popN n

/-- All its calls. -/
theorem Builder.Utf8.run (mode : MarkupMode) (events : List Event) : ∀ {b : Builder}, b.Utf8 →
    (∀ event ∈ events, event.Utf8) → (events.foldl (Builder.step mode) b).Utf8 := by
  induction events with
  | nil => exact fun h _ => h
  | cons event events ih =>
    intro b h hevents
    rw [List.foldl_cons]
    refine ih (h.step mode (hevents event List.mem_cons_self)) ?_
    exact fun e he => hevents e (List.mem_cons_of_mem _ he)

end Tree

/-- **The tree of a UTF-8 text holds UTF-8 only.** -/
theorem utf8_parseMarkup (mode : MarkupMode) {text : Bytes} (h : VlmConvert.Utf8 text) :
    (parseMarkup mode text).Utf8 := by
  have hevents : ∀ event ∈ parseEvents mode text, event.Utf8 := eventsLoop_utf8 mode Utf8.nil h
  have hstart : Builder.Utf8 ⟨[], []⟩ := ⟨by simp, trivial⟩
  rw [parseMarkup_events]
  refine ⟨⟨Utf8.of_ascii (by decide +kernel), by simp⟩, ?_⟩
  exact ((hstart.run mode _ hevents).popN _).root

end VlmConvert.L1

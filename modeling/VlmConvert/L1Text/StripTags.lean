import VlmConvert.Core.Bytes

/-!
# Text of an HTML block

`strip_tags` (`src/mapping/html.cpp:139-215`) takes the text out of a block of
HTML: breaks become blanks, the other tags come off, six entities are put back
in six passes over the whole text, and whitespace runs collapse. The loops over
positions of a string are written as scans over the text that skip what they
have taken.

The passes run one after the other, `&amp;` first: the ampersand it puts back
can begin an entity of a later pass.

Results:

* `unescape_escaped`: what the passes make of an escaped text.
* `stripTags_escaped_iff`: escaped texts between tags come back as they were
  exactly when they hold none of the other five entities.
-/
namespace VlmConvert.L1.Html

open Bytes

/-! ## The passes -/

def dropSlash : Bytes → Bytes
  | 0x2F :: l => l
  | l => l

/-- The text behind the break that `l` starts with, if it does:
`<br\s*/?>`.
mirrors src/mapping/html.cpp:153-160 -/
def behindBreak (l : Bytes) : Option Bytes :=
  if (ascii "<br").isPrefixOf l then
    match dropSlash ((l.drop 3).dropWhile isSpace) with
    | 0x3E :: rest => some rest
    | _ => none
  else none

/-- Breaks become blanks; `skip` bytes are part of the last one.
mirrors src/mapping/html.cpp:145-168 -/
def spaceBreaks : Nat → Bytes → Bytes
  | _, [] => []
  | skip + 1, _ :: l => spaceBreaks skip l
  | 0, b :: l =>
    match behindBreak (b :: l) with
    | some rest => 0x20 :: spaceBreaks (l.length - rest.length) l
    | none => b :: spaceBreaks 0 l

/-- A tag is a `<` through the next `>`; a `<` without one is text.
mirrors src/mapping/html.cpp:169-183 -/
def dropTags : Nat → Bytes → Bytes
  | _, [] => []
  | skip + 1, _ :: l => dropTags skip l
  | 0, b :: l =>
    if b = 0x3C then
      if 0x3E ∈ l then dropTags ((l.takeWhile (· != 0x3E)).length + 1) l else b :: l
    else b :: dropTags 0 l

/-- Every occurrence of an entity, from left to right, replaced by a byte; the
search goes on behind it.
mirrors src/mapping/html.cpp:189-196 -/
def replaceEntity (entity : Bytes) (c : UInt8) : Nat → Bytes → Bytes
  | _, [] => []
  | skip + 1, _ :: l => replaceEntity entity c skip l
  | 0, b :: l =>
    if entity.isPrefixOf (b :: l) then c :: replaceEntity entity c (entity.length - 1) l
    else b :: replaceEntity entity c 0 l

/-- mirrors src/mapping/html.cpp:185-188 -/
def kEntities : List (Bytes × UInt8) :=
  [(ascii "&amp;", 0x26), (ascii "&lt;", 0x3C), (ascii "&gt;", 0x3E), (ascii "&quot;", 0x22),
    (ascii "&#39;", 0x27), (ascii "&nbsp;", 0x20)]

/-- mirrors src/mapping/html.cpp:189-196 -/
def unescape (text : Bytes) : Bytes :=
  kEntities.foldl (fun text e => replaceEntity e.1 e.2 0 text) text

/-- Whitespace runs collapse to one blank.
mirrors src/mapping/html.cpp:200-213 -/
def collapseRuns : Bool → Bytes → Bytes
  | _, [] => []
  | inSpace, c :: text =>
    if isSpace c then (if inSpace then [] else [0x20]) ++ collapseRuns true text
    else c :: collapseRuns false text

/-- mirrors src/mapping/html.cpp:197-214 -/
def collapse (text : Bytes) : Bytes := trim (collapseRuns false text)

/-- mirrors src/mapping/html.cpp:139-215 -/
def stripTags (html : Bytes) : Bytes := collapse (unescape (dropTags 0 (spaceBreaks 0 html)))

/-! ## One entity -/

section Entity
variable {entity : Bytes} {c : UInt8}

theorem replaceEntity_skip : ∀ (k : Nat) (l : Bytes),
    replaceEntity entity c k l = replaceEntity entity c 0 (l.drop k) := by
  intro k
  induction k with
  | zero => intro l; rfl
  | succ k ih =>
    intro l
    cases l with
    | nil => rfl
    | cons b l =>
      rw [replaceEntity, ih]
      rfl

theorem replaceEntity_hit (hne : entity ≠ []) (l : Bytes) :
    replaceEntity entity c 0 (entity ++ l) = c :: replaceEntity entity c 0 l := by
  obtain ⟨b, tail, rfl⟩ := List.exists_cons_of_ne_nil hne
  have hpre : (b :: tail).isPrefixOf (b :: (tail ++ l)) = true :=
    List.isPrefixOf_iff_prefix.2 (List.prefix_append (b :: tail) l)
  rw [List.cons_append, replaceEntity, if_pos hpre, replaceEntity_skip, List.length_cons,
    Nat.add_sub_cancel, List.drop_left]

theorem replaceEntity_miss {b : UInt8} {l : Bytes} (h : ¬entity <+: b :: l) :
    replaceEntity entity c 0 (b :: l) = b :: replaceEntity entity c 0 l := by
  rw [replaceEntity, if_neg (mt List.isPrefixOf_iff_prefix.1 h)]

/-- Text at whose bytes the entity does not start stays. -/
theorem replaceEntity_skips : ∀ {u : Bytes}, Skips entity u → ∀ l,
    replaceEntity entity c 0 (u ++ l) = u ++ replaceEntity entity c 0 l := by
  intro u
  induction u with
  | nil => intro _ l; rfl
  | cons b u ih =>
    intro h l
    have hb : ¬entity <+: b :: (u ++ l) := h [] (b :: u) rfl (by simp) l
    rw [List.cons_append, replaceEntity_miss hb,
      ih (fun before after heq => h (b :: before) after (by rw [heq]; rfl))]
    rfl

theorem replaceEntity_none : ∀ {l : Bytes}, ¬entity <:+: l → replaceEntity entity c 0 l = l := by
  intro l
  induction l with
  | nil => intro _; rfl
  | cons b l ih =>
    intro h
    rw [List.infix_cons_iff, not_or] at h
    rw [replaceEntity_miss h.1, ih h.2]

/-- Replacing an entity of several visible bytes leaves fewer of them. -/
theorem visible_replaceEntity (hlong : 2 ≤ entity.length)
    (hvisible : ∀ b ∈ entity, isSpace b = false) :
    ∀ (n : Nat) {l : Bytes}, l.length ≤ n →
      (visible (replaceEntity entity c 0 l)).length + (if entity <:+: l then 1 else 0) ≤
        (visible l).length := by
  have hne : entity ≠ [] := by
    rintro rfl
    simp at hlong
  have hall : visible entity = entity := by
    rw [visible, List.filter_eq_self]
    simpa using hvisible
  intro n
  induction n with
  | zero =>
    intro l hl
    rw [List.length_eq_zero_iff.1 (Nat.le_zero.1 hl)]
    simp [replaceEntity, hne]
  | succ n ih =>
    intro l hl
    by_cases hpre : entity <+: l
    · obtain ⟨rest, rfl⟩ := hpre
      rw [List.length_append] at hl
      have hrest := @ih rest (by omega)
      have hle : (visible (replaceEntity entity c 0 rest)).length ≤ (visible rest).length := by
        omega
      have hc : (visible [c]).length ≤ 1 := List.length_filter_le _ _
      rw [replaceEntity_hit hne, if_pos (List.prefix_append _ _).isInfix, visible_append, hall,
        List.length_append, ← List.singleton_append, visible_append, List.length_append]
      omega
    · cases l with
      | nil => simp [replaceEntity, hne]
      | cons b l =>
        have htail := @ih l (by simpa using hl)
        have hiff : entity <:+: b :: l ↔ entity <:+: l := by
          rw [List.infix_cons_iff]
          exact or_iff_right hpre
        rw [replaceEntity_miss hpre, if_congr hiff rfl rfl, ← List.singleton_append, visible_append,
          ← List.singleton_append (l := l), visible_append, List.length_append, List.length_append]
        omega

end Entity

/-! ## Escaped texts -/

/-- The escapes of `&`, `<` and `>`. -/
def escapeByte (b : UInt8) : Bytes :=
  if b = 0x26 then ascii "&amp;" else if b = 0x3C then ascii "&lt;"
  else if b = 0x3E then ascii "&gt;" else [b]

def escape (text : Bytes) : Bytes := text.flatMap escapeByte

/-- The escapes that are left behind the pass for `&amp;`. -/
def escapeAngle (b : UInt8) : Bytes :=
  if b = 0x3C then ascii "&lt;" else if b = 0x3E then ascii "&gt;" else [b]

/-- The escapes that are left behind the pass for `&lt;`. -/
def escapeGt (b : UInt8) : Bytes := if b = 0x3E then ascii "&gt;" else [b]

section Escaped

theorem replaceAmp (x : Bytes) :
    replaceEntity (ascii "&amp;") 0x26 0 (x.flatMap escapeByte) = x.flatMap escapeAngle := by
  have hhead : (ascii "&amp;").head? = some 0x26 := rfl
  induction x with
  | nil => rfl
  | cons b x ih =>
    rw [List.flatMap_cons, List.flatMap_cons, ← ih]
    by_cases hamp : b = 0x26
    · subst hamp
      exact replaceEntity_hit (by decide) _
    have hskips : Skips (ascii "&amp;") (escapeAngle b) := by
      unfold escapeAngle
      split_ifs with hlt hgt
      · exact skips_of_head hhead (fun rest => by simp [ascii, List.isPrefixOf]) (by decide)
      · exact skips_of_head hhead (fun rest => by simp [ascii, List.isPrefixOf]) (by decide)
      · exact skips_of_notMem hhead (by simpa using fun e => hamp e.symm)
    have hsame : escapeByte b = escapeAngle b := by
      unfold escapeByte escapeAngle
      rw [if_neg hamp]
    rw [hsame, replaceEntity_skips hskips]

/-- A plain text is the start of an escaped one exactly when it is the start
of the text. -/
theorem prefix_escaped {esc : UInt8 → Bytes} (hesc : ∀ b, esc b = [b] ∨ ∃ t, esc b = 0x26 :: t) :
    ∀ {P x : Bytes}, (0x26 : UInt8) ∉ P → P <+: x.flatMap esc → P <+: x := by
  intro P
  induction P with
  | nil => intro x _ _; exact List.nil_prefix
  | cons p P ih =>
    intro x hP h
    rw [List.mem_cons, not_or] at hP
    cases x with
    | nil => simp at h
    | cons b x =>
      rw [List.flatMap_cons] at h
      rcases hesc b with hb | ⟨t, hb⟩
      · rw [hb, List.singleton_append, List.cons_prefix_cons] at h
        rw [List.cons_prefix_cons]
        exact ⟨h.1, ih hP.2 h.2⟩
      · rw [hb, List.cons_append, List.cons_prefix_cons] at h
        exact absurd h.1.symm hP.1

/-- **One pass over an escaped text** puts back the escapes of its byte, and
the entities the text itself holds. -/
theorem replaceEntity_escaped {c : UInt8} {P : Bytes} {esc esc' : UInt8 → Bytes}
    (hself : esc c = 0x26 :: P) (hself' : esc' c = [c])
    (hlit : (0x26 :: P).all (fun b => esc b == [b]) = true) (hP : (0x26 : UInt8) ∉ P)
    (hesc : ∀ b, esc b = [b] ∨ ∃ t, esc b = 0x26 :: t)
    (hother : ∀ b, b ≠ c → esc b = esc' b ∧ (esc b = [b] ∨ Skips (0x26 :: P) (esc b))) :
    ∀ (n : Nat) {x : Bytes}, x.length ≤ n →
      replaceEntity (0x26 :: P) c 0 (x.flatMap esc) =
        (replaceEntity (0x26 :: P) c 0 x).flatMap esc' := by
  have hE : (0x26 :: P) ≠ [] := by simp
  have hkeep : ∀ {u : Bytes}, (∀ b ∈ u, esc b = [b]) → u.flatMap esc = u := by
    intro u hu
    induction u with
    | nil => rfl
    | cons b u ih =>
      rw [List.flatMap_cons, hu b List.mem_cons_self,
        ih fun d hd => hu d (List.mem_cons_of_mem _ hd)]
      rfl
  intro n
  induction n with
  | zero =>
    intro x hx
    rw [List.length_eq_zero_iff.1 (Nat.le_zero.1 hx)]
    rfl
  | succ n ih =>
    intro x hx
    by_cases hpre : 0x26 :: P <+: x
    · -- an entity of the text itself
      obtain ⟨rest, rfl⟩ := hpre
      rw [List.length_append, List.length_cons] at hx
      rw [List.flatMap_append, hkeep fun b hb => by simpa using List.all_eq_true.1 hlit b hb,
        replaceEntity_hit hE, replaceEntity_hit hE, List.flatMap_cons,
        hself', ih (by omega)]
      rfl
    · cases x with
      | nil => rfl
      | cons b x =>
        have htail := @ih x (by simpa using hx)
        rw [replaceEntity_miss hpre, List.flatMap_cons, List.flatMap_cons, ← htail]
        by_cases hbc : b = c
        · rw [hbc, hself, hself', replaceEntity_hit hE]
          rfl
        obtain ⟨hsame, hplain | hskips⟩ := hother b hbc
        · rw [← hsame, hplain, List.singleton_append, List.singleton_append, replaceEntity_miss]
          intro h
          rw [List.cons_prefix_cons] at h
          exact hpre (List.cons_prefix_cons.2 ⟨h.1, prefix_escaped hesc hP h.2⟩)
        · rw [replaceEntity_skips hskips, hsame]

/-- The entities behind `&amp;`. -/
def laterEntities : List (Bytes × UInt8) := kEntities.tail

/-- What the passes make of an escaped text: the text, less the entities it
holds itself. -/
theorem unescape_escaped (x : Bytes) : unescape (escape x) =
    laterEntities.foldl (fun text e => replaceEntity e.1 e.2 0 text) x := by
  have hangle : replaceEntity (ascii "&lt;") 0x3C 0 (x.flatMap escapeAngle) =
      (replaceEntity (ascii "&lt;") 0x3C 0 x).flatMap escapeGt := by
    refine replaceEntity_escaped (P := ascii "lt;") rfl rfl (by decide) (by decide) (fun b => ?_)
      (fun b hb => ?_) x.length (Nat.le_refl _)
    · unfold escapeAngle
      split_ifs
      · exact Or.inr ⟨_, rfl⟩
      · exact Or.inr ⟨_, rfl⟩
      · exact Or.inl rfl
    · unfold escapeAngle escapeGt
      rw [if_neg hb]
      refine ⟨rfl, ?_⟩
      split_ifs
      · refine Or.inr (skips_of_head rfl (fun rest => ?_) (by decide))
        simp [ascii, List.isPrefixOf]
      · exact Or.inl rfl
  have hgt : ∀ z : Bytes, replaceEntity (ascii "&gt;") 0x3E 0 (z.flatMap escapeGt) =
      replaceEntity (ascii "&gt;") 0x3E 0 z := by
    intro z
    have hpass :=
      @replaceEntity_escaped 0x3E (ascii "gt;") escapeGt (fun b => [b]) rfl rfl (by decide)
      (by decide) (fun b => ?_) (fun b hb => ?_) z.length z (Nat.le_refl _)
    · rw [List.flatMap_singleton'] at hpass
      exact hpass
    · unfold escapeGt
      split_ifs
      · exact Or.inr ⟨_, rfl⟩
      · exact Or.inl rfl
    · unfold escapeGt
      rw [if_neg hb]
      exact ⟨rfl, Or.inl rfl⟩
  rw [unescape, escape, laterEntities, kEntities]
  simp only [List.foldl_cons, List.foldl_nil, List.tail_cons, replaceAmp, hangle, hgt]

/-! ### Collapsing -/

theorem visible_collapse (text : Bytes) : visible (collapse text) = visible text := by
  have hruns : ∀ inSpace, visible (collapseRuns inSpace text) = visible text := by
    induction text with
    | nil => intro inSpace; rfl
    | cons c text ih =>
      intro inSpace
      rw [collapseRuns]
      by_cases hc : isSpace c = true
      · rw [if_pos hc, visible_append, ih]
        have hblank : isSpace 0x20 = true := rfl
        cases inSpace <;> simp [visible, hc, hblank]
      · rw [if_neg hc, ← List.singleton_append, visible_append, ih, ← visible_append]
        rfl
  rw [collapse, visible_trim, hruns]

/-- Replacing entities never adds to what is seen, and takes from it when one
of them is there. -/
theorem visible_entities (es : List (Bytes × UInt8))
    (hes : ∀ e ∈ es, 2 ≤ e.1.length ∧ ∀ b ∈ e.1, isSpace b = false) : ∀ x : Bytes,
    (visible (es.foldl (fun text e => replaceEntity e.1 e.2 0 text) x)).length ≤
      (visible x).length ∧
    ((∃ e ∈ es, e.1 <:+: x) →
      (visible (es.foldl (fun text e => replaceEntity e.1 e.2 0 text) x)).length <
        (visible x).length) := by
  induction es with
  | nil => exact fun x => ⟨Nat.le_refl _, by rintro ⟨e, he, -⟩; cases he⟩
  | cons e es ih =>
    intro x
    obtain ⟨hlong, hvisible⟩ := hes e List.mem_cons_self
    have hone := @visible_replaceEntity e.1 e.2 hlong hvisible x.length x (Nat.le_refl _)
    obtain ⟨hle, hlt⟩ :=
      ih (fun e' he' => hes e' (List.mem_cons_of_mem _ he')) (replaceEntity e.1 e.2 0 x)
    rw [List.foldl_cons]
    by_cases he : e.1 <:+: x
    · rw [if_pos he] at hone
      exact ⟨by omega, fun _ => by omega⟩
    · rw [replaceEntity_none he] at hle hlt ⊢
      refine ⟨hle, ?_⟩
      rintro ⟨e', he', hin⟩
      rcases List.mem_cons.1 he' with rfl | he'
      · exact absurd hin he
      · exact hlt ⟨e', he', hin⟩

/-- The passes give an escaped text back exactly when it holds none of the
later entities. -/
theorem collapse_unescape_iff (x : Bytes) :
    collapse (unescape (escape x)) = collapse x ↔ ∀ e ∈ laterEntities, ¬e.1 <:+: x := by
  rw [unescape_escaped]
  have hes : ∀ e ∈ laterEntities, 2 ≤ e.1.length ∧ ∀ b ∈ e.1, isSpace b = false := by
    have hall : (laterEntities.all fun e =>
        decide (2 ≤ e.1.length) && e.1.all (fun b => !isSpace b)) = true := by decide
    simpa using hall
  constructor
  · intro h e he hin
    have hlt := (visible_entities laterEntities hes x).2 ⟨e, he, hin⟩
    have heq := congrArg (fun t => (visible t).length) h
    simp only [visible_collapse] at heq
    omega
  · intro h
    have hsame : ∀ es : List (Bytes × UInt8), (∀ e ∈ es, ¬e.1 <:+: x) →
        es.foldl (fun text e => replaceEntity e.1 e.2 0 text) x = x := by
      intro es hes
      induction es with
      | nil => rfl
      | cons e es ih =>
        rw [List.foldl_cons, replaceEntity_none (hes e List.mem_cons_self),
          ih fun e' he' => hes e' (List.mem_cons_of_mem _ he')]
    rw [hsame laterEntities h]

end Escaped

/-! ## Tags between the texts -/

/-- A tag without a `>` inside, in which no break ends: it is none itself, and
no `<br` stands right before its `>`. -/
structure PlainTag where
  inner : Bytes
  closed : 0x3E ∉ inner
  plain : ∀ s, s <:+ 0x3C :: (inner ++ [0x3E]) → behindBreak s = none

def PlainTag.bytes (tag : PlainTag) : Bytes := 0x3C :: (tag.inner ++ [0x3E])

/-- Escaped texts, a tag before each but the first. -/
def interleave (first : Bytes) (parts : List (PlainTag × Bytes)) : Bytes :=
  escape first ++ parts.flatMap fun part => part.1.bytes ++ escape part.2

def texts (first : Bytes) (parts : List (PlainTag × Bytes)) : Bytes :=
  first ++ parts.flatMap Prod.snd

section Tags

theorem not_lt_escape (x : Bytes) : 0x3C ∉ escape x := by
  intro hmem
  obtain ⟨b, -, hb⟩ := List.mem_flatMap.1 hmem
  unfold escapeByte at hb
  split_ifs at hb with h1 h2 h3
  · exact absurd hb (by decide)
  · exact absurd hb (by decide)
  · exact absurd hb (by decide)
  · exact h2 (List.mem_singleton.1 hb).symm

theorem dropSlash_append {t : Bytes} (ht : 0x3E ∈ t) (rest : Bytes) :
    0x3E ∈ dropSlash t ∧ dropSlash (t ++ rest) = dropSlash t ++ rest := by
  cases t with
  | nil => cases ht
  | cons a t =>
    by_cases ha : a = 0x2F
    · subst ha
      rcases List.mem_cons.1 ht with h | h
      · cases h
      · exact ⟨h, rfl⟩
    · have hkeep : ∀ l, dropSlash (a :: l) = a :: l := by
        intro l
        unfold dropSlash
        split
        · rename_i he
          exact absurd (List.cons.inj he).1 ha
        · rfl
      rw [List.cons_append, hkeep, hkeep]
      exact ⟨ht, rfl⟩

/-- Whether a text that has a `>` starts with a break does not depend on what
stands behind it. -/
theorem behindBreak_append {s : Bytes} (hs : 0x3E ∈ s) (rest : Bytes) (h : behindBreak s = none) :
    behindBreak (s ++ rest) = none := by
  unfold behindBreak at h ⊢
  by_cases hpre : (ascii "<br").isPrefixOf (s ++ rest) = true
  · rw [if_pos hpre]
    have hbr : ascii "<br" <+: s := by
      rcases List.prefix_or_prefix_of_prefix (List.isPrefixOf_iff_prefix.1 hpre)
        (List.prefix_append s rest) with hle | hle
      · exact hle
      · exact absurd (hle.mem hs) (by decide)
    obtain ⟨s', rfl⟩ := hbr
    rw [if_pos (List.isPrefixOf_iff_prefix.2 (List.prefix_append _ _))] at h
    have hs' : 0x3E ∈ s' := by
      rcases List.mem_append.1 hs with hs | hs
      · exact absurd hs (by decide)
      · exact hs
    have hdrop : ∀ l : Bytes, (ascii "<br" ++ l).drop 3 = l := fun l => rfl
    have ht : 0x3E ∈ s'.dropWhile isSpace := by
      have hsplit : s' = s'.takeWhile isSpace ++ s'.dropWhile isSpace :=
        List.takeWhile_append_dropWhile.symm
      rw [hsplit] at hs'
      rcases List.mem_append.1 hs' with h' | h'
      · exact absurd (List.mem_takeWhile_imp h') (by decide)
      · exact h'
    have hne : (s'.dropWhile isSpace).isEmpty = false := by
      rw [List.isEmpty_eq_false_iff]
      exact List.ne_nil_of_mem ht
    obtain ⟨hmem, hslash⟩ := dropSlash_append ht rest
    rw [hdrop] at h
    rw [List.append_assoc, hdrop, List.dropWhile_append, hne, if_neg Bool.false_ne_true, hslash]
    obtain ⟨a, t, hat⟩ := List.exists_cons_of_ne_nil (List.ne_nil_of_mem hmem)
    rw [hat] at h ⊢
    split
    · rename_i he
      rw [(List.cons.inj he).1] at h
      cases h
    · rfl
  · rw [if_neg hpre]

theorem spaceBreaks_append :
    ∀ {u : Bytes}, (∀ s, s <:+ u → s ≠ [] → ∀ rest, behindBreak (s ++ rest) = none) →
    ∀ rest, spaceBreaks 0 (u ++ rest) = u ++ spaceBreaks 0 rest := by
  intro u
  induction u with
  | nil => intro _ rest; rfl
  | cons b u ih =>
    intro h rest
    have hb := h (b :: u) List.suffix_rfl (by simp) rest
    rw [List.cons_append] at hb ⊢
    rw [spaceBreaks, hb]
    dsimp only
    rw [ih (fun s hs => h s (hs.trans (List.suffix_cons b u))) rest]
    rfl

theorem spaceBreaks_escape (x rest : Bytes) :
    spaceBreaks 0 (escape x ++ rest) = escape x ++ spaceBreaks 0 rest := by
  refine spaceBreaks_append (fun s hs hne rest => ?_) rest
  obtain ⟨b, s, rfl⟩ := List.exists_cons_of_ne_nil hne
  have hb : b ≠ 0x3C := by
    rintro rfl
    exact not_lt_escape x (hs.mem List.mem_cons_self)
  unfold behindBreak
  rw [if_neg]
  rw [List.isPrefixOf_iff_prefix, List.cons_append]
  intro hpre
  exact hb (List.cons_prefix_cons.1 hpre).1.symm

theorem spaceBreaks_tag (tag : PlainTag) (rest : Bytes) :
    spaceBreaks 0 (tag.bytes ++ rest) = tag.bytes ++ spaceBreaks 0 rest := by
  refine spaceBreaks_append (fun s hs hne rest => behindBreak_append ?_ rest (tag.plain s hs)) rest
  -- a part of the tag up to its end ends in its `>`
  obtain ⟨front, hfront⟩ := hs
  have hlast := congrArg List.getLast? hfront
  rw [List.getLast?_append_of_ne_nil _ hne] at hlast
  have : s.getLast? = some 0x3E := by
    rw [hlast]
    exact List.getLast?_concat (l := 0x3C :: tag.inner)
  exact List.mem_of_getLast? this

theorem dropTags_skip : ∀ (k : Nat) (l : Bytes), dropTags k l = dropTags 0 (l.drop k) := by
  intro k
  induction k with
  | zero => intro l; rfl
  | succ k ih =>
    intro l
    cases l with
    | nil => rfl
    | cons b l =>
      rw [dropTags, ih]
      rfl

theorem dropTags_text : ∀ {u : Bytes}, 0x3C ∉ u → ∀ rest,
    dropTags 0 (u ++ rest) = u ++ dropTags 0 rest := by
  intro u
  induction u with
  | nil => intro _ rest; rfl
  | cons b u ih =>
    intro hu rest
    rw [List.mem_cons, not_or] at hu
    rw [List.cons_append, dropTags, if_neg (fun e => hu.1 e.symm), ih hu.2]
    rfl

theorem dropTags_tag (tag : PlainTag) (rest : Bytes) :
    dropTags 0 (tag.bytes ++ rest) = dropTags 0 rest := by
  have hall : ∀ b ∈ tag.inner, (b != 0x3E) = true := by
    intro b hb
    rw [bne_iff_ne]
    rintro rfl
    exact tag.closed hb
  have htake : (tag.inner ++ 0x3E :: rest).takeWhile (· != 0x3E) = tag.inner := by
    rw [List.takeWhile_append_of_pos hall]
    simp
  rw [PlainTag.bytes, List.cons_append, List.append_assoc, List.singleton_append, dropTags,
    if_pos rfl, if_pos (by simp), htake, dropTags_skip, ← List.drop_drop, List.drop_left]
  rfl

/-- Between tags the escaped texts are all that is left. -/
theorem dropTags_interleave (first : Bytes) (parts : List (PlainTag × Bytes)) :
    dropTags 0 (spaceBreaks 0 (interleave first parts)) = escape (texts first parts) := by
  have hparts : ∀ parts : List (PlainTag × Bytes),
      dropTags 0 (spaceBreaks 0 (parts.flatMap fun part => part.1.bytes ++ escape part.2)) =
        escape (parts.flatMap Prod.snd) := by
    intro parts
    induction parts with
    | nil => rfl
    | cons part parts ih =>
      rw [List.flatMap_cons, List.append_assoc, spaceBreaks_tag, dropTags_tag, spaceBreaks_escape,
        dropTags_text (not_lt_escape part.2), ih, List.flatMap_cons, escape, escape, escape,
        List.flatMap_append]
  rw [interleave, spaceBreaks_escape, dropTags_text (not_lt_escape first), hparts, texts,
    escape, escape, escape, List.flatMap_append]

end Tags

/-- **Escaped texts come back exactly when they hold no other entity.** For
all texts with tags between them (without a `>` inside, and without a break),
the text of the HTML that escapes them is their concatenation with whitespace
runs collapsed and the ends trimmed, if and only if that concatenation holds
none of `&lt;`, `&gt;`, `&quot;`, `&#39;` and `&nbsp;`. -/
theorem stripTags_escaped_iff (first : Bytes) (parts : List (PlainTag × Bytes)) :
    stripTags (interleave first parts) = collapse (texts first parts) ↔
      ∀ e ∈ laterEntities, ¬e.1 <:+: texts first parts := by
  rw [stripTags, dropTags_interleave]
  exact collapse_unescape_iff (texts first parts)

theorem plain_bold : ∀ s, s <:+ 0x3C :: (ascii "b" ++ [0x3E]) → behindBreak s = none := by
  have hall : ∀ s ∈ (0x3C :: (ascii "b" ++ [0x3E])).tails, behindBreak s = none := by decide
  exact fun s hs => hall s ((List.mem_tails s _).2 hs)

/-- `<b>` -/
def boldTag : PlainTag := ⟨ascii "b", by decide, plain_bold⟩

theorem stripTags_escaped_iff_bold :
    stripTags (interleave (ascii " a &") [(boldTag, ascii "amp; b"), (boldTag, ascii " < c")]) =
        collapse (ascii " a &amp; b < c") ∧
      stripTags (interleave (ascii "&l") [(boldTag, ascii "t;")]) ≠ collapse (ascii "&lt;") :=
  ⟨(stripTags_escaped_iff (ascii " a &") [(boldTag, ascii "amp; b"), (boldTag, ascii " < c")]).2
      (by decide),
    fun h => absurd ((stripTags_escaped_iff (ascii "&l") [(boldTag, ascii "t;")]).1 h)
      (by decide)⟩

/-- The text `&lt;` is escaped to `&amp;lt;`, which the second pass takes for
an entity. -/
theorem stripTags_unescapes_twice :
    stripTags (escape (ascii "&lt;")) = ascii "<" ∧ collapse (ascii "&lt;") = ascii "&lt;" ∧
      stripTags (escape (ascii "&lt;")) ≠ collapse (ascii "&lt;") := by
  decide

end VlmConvert.L1.Html

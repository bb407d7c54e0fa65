import Mathlib.Algebra.Order.Field.Rat
import VlmConvert.Core.Bytes
import VlmConvert.Core.LazyMatch

/-!
# The regions of a Nemotron Parse 2 response

`nemotron_v2_regions` (`src/mapping/nemotron.cpp:29-74` and `459-501`) stands for
the regular expression
`<x_N><y_N>(.*?)<x_N><y_N><class_C>`: each region is a body between a pair of
coordinates and a pair with a class. The loop reads every pair it tries into
the coordinates of the region.

`std::from_chars` is a parameter: the value of a number, or `none` where it is
out of the range of a `double`, and then what it is read into keeps its value.

Results:

* `nemotronV2Regions_eq`: bodies, classes and opening pairs are those of the
  leftmost lazy matches.
* `nemotronV2Regions_iff`: when the closing coordinates are too.
-/
namespace VlmConvert.L3.Nemotron

open Bytes

/-! ## Tokens -/

/-- The number a text starts with, `\d+(?:\.\d+)?`, and what is behind it.
mirrors src/mapping/nemotron.cpp:32-46 -/
def readNumber (l : Bytes) : Option (Bytes × Bytes) :=
  let whole := l.takeWhile isDigit
  let rest := l.dropWhile isDigit
  if whole.isEmpty then none
  else if rest.head? == some 0x2E && (rest.drop 1).head?.any isDigit then
    some (whole ++ 0x2E :: (rest.drop 1).takeWhile isDigit, (rest.drop 1).dropWhile isDigit)
  else some (whole, rest)

section Scan
variable {ν : Type} (fromChars : Bytes → Option ν)

/-- `std::from_chars` into `value`. -/
def assign (value : ν) (number : Bytes) : ν := (fromChars number).getD value

/-- `<x_N><y_N>` at the start of a text: what is behind it, and the coordinates
it was read into, as far as it was read.
mirrors src/mapping/nemotron.cpp:29-62 -/
def coordToken (l : Bytes) (xy : ν × ν) : Option Bytes × (ν × ν) :=
  if !(ascii "<x_").isPrefixOf l then (none, xy)
  else
    match readNumber (l.drop 3) with
    | none => (none, xy)
    | some (x, afterX) =>
      let xy := (assign fromChars xy.1 x, xy.2)
      if !(ascii "><y_").isPrefixOf afterX then (none, xy)
      else
        match readNumber (afterX.drop 4) with
        | none => (none, xy)
        | some (y, afterY) =>
          let xy := (xy.1, assign fromChars xy.2 y)
          if afterY.head? == some 0x3E then (some (afterY.drop 1), xy) else (none, xy)

/-- `<class_NAME>` at the start of a text: the name, and what is behind it.
mirrors src/mapping/nemotron.cpp:65-75 -/
def classToken (l : Bytes) : Option (Bytes × Bytes) :=
  if !(ascii "<class_").isPrefixOf l then none
  else
    match findByte 0x3E (l.drop 7) with
    | none => none
    | some (name, close) => if name.isEmpty then none else some (name, close.drop 1)

/-! ## The scan -/

/-- mirrors src/mapping/nemotron.cpp:450-454 -/
structure Region (ν : Type) where
  x1 : ν
  y1 : ν
  x2 : ν
  y2 : ν
  text : Bytes
  label : Bytes
  deriving DecidableEq, Repr

/-- The body up to the first pair with a class, the class, the coordinates as
they are then, and the rest. A pair starts at `<x_`, where `find` stops.
mirrors src/mapping/nemotron.cpp:473-486 -/
def closeFrom : ν × ν → Bytes → Option (Bytes × Bytes × (ν × ν) × Bytes)
  | _, [] => none
  | xy, b :: l =>
    match coordToken fromChars (b :: l) xy with
    | (none, xy) => (closeFrom xy l).map fun r => (b :: r.1, r.2)
    | (some after, xy) =>
      match classToken after with
      | some (label, rest) => some ([], label, xy, rest)
      | none => (closeFrom xy l).map fun r => (b :: r.1, r.2)

variable [Zero ν]

/-- mirrors src/mapping/nemotron.cpp:459-501 -/
def regionsFrom : Nat → Bytes → List (Region ν)
  | 0, _ => []
  | _ + 1, [] => []
  | n + 1, b :: l =>
    match coordToken fromChars (b :: l) (0, 0) with
    | (none, _) => regionsFrom n l
    | (some inner, xy1) =>
      match closeFrom fromChars (0, 0) inner with
      | none => []
      | some (body, label, xy2, rest) =>
        { x1 := xy1.1, y1 := xy1.2, x2 := xy2.1, y2 := xy2.2, text := body
          label := if label = ascii "Inline-formula" then ascii "Formula" else label } ::
          regionsFrom n rest

def nemotronV2Regions (text : Bytes) : List (Region ν) := regionsFrom fromChars text.length text

end Scan

/-! ## Numbers -/

def Digits (l : Bytes) : Prop := l ≠ [] ∧ ∀ b ∈ l, isDigit b = true

/-- Digits, and a fraction if there is one. -/
def IsNumber (n : Bytes) : Prop :=
  Digits n ∨ ∃ whole fraction, Digits whole ∧ Digits fraction ∧ n = whole ++ 0x2E :: fraction

theorem takeWhile_digits {l rest : Bytes} (h : ∀ b ∈ l, isDigit b = true)
    (hrest : rest.head?.any isDigit = false) :
    (l ++ rest).takeWhile isDigit = l ∧ (l ++ rest).dropWhile isDigit = rest := by
  rw [List.takeWhile_append_of_pos h, List.dropWhile_append_of_pos h]
  cases rest with
  | nil => exact ⟨List.append_nil l, rfl⟩
  | cons b rest =>
    have hb : isDigit b = false := by simpa using hrest
    rw [List.takeWhile_cons_of_neg (by simp [hb]), List.dropWhile_cons_of_neg (by simp [hb])]
    exact ⟨List.append_nil l, rfl⟩

theorem digits_takeWhile {l : Bytes} (h : (l.takeWhile isDigit).isEmpty = false) :
    Digits (l.takeWhile isDigit) :=
  ⟨by simpa using h, fun _ hb => List.mem_takeWhile_imp hb⟩

theorem readNumber_some {l number rest : Bytes} (h : readNumber l = some (number, rest)) :
    IsNumber number ∧ l = number ++ rest := by
  unfold readNumber at h
  dsimp only at h
  split at h
  · cases h
  · rename_i hwhole
    have hdigits := digits_takeWhile (by simpa using hwhole)
    have hsplit : l.takeWhile isDigit ++ l.dropWhile isDigit = l := List.takeWhile_append_dropWhile
    split at h
    · rename_i hfraction
      rw [Bool.and_eq_true] at hfraction
      obtain ⟨hpoint, hfirst⟩ := hfraction
      cases hrest : l.dropWhile isDigit with
      | nil =>
        rw [hrest] at hpoint
        cases hpoint
      | cons c tail =>
        rw [hrest] at h hpoint hfirst hsplit
        have hc : c = 0x2E := by simpa using hpoint
        subst hc
        cases h
        cases tail with
        | nil => cases hfirst
        | cons d tail =>
          have hd : isDigit d = true := by simpa using hfirst
          have hmore : (((d :: tail).takeWhile isDigit).isEmpty) = false := by
            rw [List.takeWhile_cons_of_pos hd]
            rfl
          refine ⟨.inr ⟨_, _, hdigits, digits_takeWhile hmore, rfl⟩, ?_⟩
          rw [List.append_assoc, List.cons_append]
          conv_lhs => rw [← hsplit]
          exact congrArg (l.takeWhile isDigit ++ 0x2E :: ·) (List.takeWhile_append_dropWhile).symm
    · cases h
      exact ⟨.inl hdigits, hsplit.symm⟩

/-- A number is read up to the byte behind it. -/
theorem readNumber_number {number : Bytes} (h : IsNumber number) {rest : Bytes}
    (hrest : rest.head?.any (fun b => isDigit b || b == 0x2E) = false) :
    readNumber (number ++ rest) = some (number, rest) := by
  have hdigit : rest.head?.any isDigit = false := by
    cases rest with
    | nil => rfl
    | cons b rest =>
      have hb : (isDigit b || b == 0x2E) = false := hrest
      exact (Bool.or_eq_false_iff.1 hb).1
  have hpoint : (rest.head? == some 0x2E) = false := by
    cases rest with
    | nil => rfl
    | cons b rest =>
      have hb : (isDigit b || b == 0x2E) = false := hrest
      simpa using (Bool.or_eq_false_iff.1 hb).2
  rcases h with hnumber | ⟨whole, fraction, hwhole, hfraction, rfl⟩
  · obtain ⟨htake, hdrop⟩ := takeWhile_digits hnumber.2 hdigit
    rw [readNumber, htake, hdrop, hpoint]
    simp [hnumber.1]
  · obtain ⟨htake, hdrop⟩ := @takeWhile_digits whole (0x2E :: (fraction ++ rest)) hwhole.2 rfl
    obtain ⟨htake', hdrop'⟩ := takeWhile_digits hfraction.2 hdigit
    have hfirst : (fraction ++ rest).head?.any isDigit = true := by
      obtain ⟨d, more, rfl⟩ := List.exists_cons_of_ne_nil hfraction.1
      exact hfraction.2 d List.mem_cons_self
    rw [readNumber, List.append_assoc, List.cons_append, htake, hdrop]
    simp [hwhole.1, htake', hdrop', hfirst, -List.head?_append]

/-- What stands behind a number does not change it, if no number goes on there. -/
theorem readNumber_append (l more : Bytes) :
    readNumber (l ++ 0x3C :: more) = (readNumber l).map fun r => (r.1, r.2 ++ 0x3C :: more) := by
  have hone : ∀ l : Bytes, (l ++ 0x3C :: more).takeWhile isDigit = l.takeWhile isDigit ∧
      (l ++ 0x3C :: more).dropWhile isDigit = l.dropWhile isDigit ++ 0x3C :: more := by
    intro l
    induction l with
    | nil => exact ⟨rfl, rfl⟩
    | cons b l ih =>
      rw [List.cons_append, List.takeWhile_cons, List.takeWhile_cons, List.dropWhile_cons,
        List.dropWhile_cons]
      split
      · exact ⟨congrArg (b :: ·) ih.1, ih.2⟩
      · exact ⟨rfl, rfl⟩
  unfold readNumber
  dsimp only
  rw [(hone l).1, (hone l).2]
  split
  · rfl
  · cases hrest : l.dropWhile isDigit with
    | nil => rfl
    | cons c tail =>
      cases tail with
      | nil =>
        simp only [List.cons_append, List.nil_append, List.head?_cons, List.drop_succ_cons,
          List.drop_zero,
          Option.any_some, List.head?_nil, Option.any_none, Bool.and_false, Bool.false_eq_true,
            if_false]
        rw [if_neg (by simp [isDigit])]
        rfl
      | cons d tail =>
        have hnext := hone (d :: tail)
        simp only [List.cons_append, List.head?_cons, List.drop_succ_cons, List.drop_zero,
          Option.any_some] at hnext ⊢
        rw [hnext.1, hnext.2]
        split <;> rfl

/-! ## What is read at a position -/

/-- The numbers a pair of coordinates has been read up to, and what is behind
it if it is whole. -/
structure Reading where
  x : Option Bytes := none
  y : Option Bytes := none
  rest : Option Bytes := none

/-- `coordToken` without the values. -/
def readCoord (l : Bytes) : Reading :=
  if !(ascii "<x_").isPrefixOf l then {}
  else
    match readNumber (l.drop 3) with
    | none => {}
    | some (x, afterX) =>
      if !(ascii "><y_").isPrefixOf afterX then { x := some x }
      else
        match readNumber (afterX.drop 4) with
        | none => { x := some x }
        | some (y, afterY) =>
          { x := some x, y := some y
            rest := if afterY.head? == some 0x3E then some (afterY.drop 1) else none }

/-- Each number that was read is assigned. -/
def Reading.into {ν : Type} (fromChars : Bytes → Option ν) (r : Reading) (xy : ν × ν) : ν × ν :=
  (r.x.elim xy.1 (assign fromChars xy.1), r.y.elim xy.2 (assign fromChars xy.2))

theorem coordToken_eq {ν : Type} (fromChars : Bytes → Option ν) (l : Bytes) (xy : ν × ν) :
    coordToken fromChars l xy = ((readCoord l).rest, (readCoord l).into fromChars xy) := by
  unfold coordToken readCoord
  split
  · rfl
  · split
    · rfl
    · dsimp only
      split
      · rfl
      · split
        · rfl
        · dsimp only
          split <;> rfl

/-- Whether a text is `<x_N><y_N>`. -/
def IsPair (xy : Bytes × Bytes) (s : Bytes) : Prop :=
  IsNumber xy.1 ∧ IsNumber xy.2 ∧ s = ascii "<x_" ++ (xy.1 ++ (ascii "><y_" ++ (xy.2 ++ ascii ">")))

theorem readCoord_pair {xy : Bytes × Bytes} {s : Bytes} (h : IsPair xy s) (rest : Bytes) :
    readCoord (s ++ rest) = ⟨some xy.1, some xy.2, some rest⟩ := by
  obtain ⟨hx, hy, rfl⟩ := h
  have hopen : ∀ more, (ascii "<x_").isPrefixOf (ascii "<x_" ++ more) = true :=
    fun more => List.isPrefixOf_iff_prefix.2 ⟨more, rfl⟩
  have hmiddle : ∀ more, (ascii "><y_").isPrefixOf (ascii "><y_" ++ more) = true :=
    fun more => List.isPrefixOf_iff_prefix.2 ⟨more, rfl⟩
  have hdrop : ∀ more, (ascii "<x_" ++ more).drop 3 = more := fun more => rfl
  have hdrop' : ∀ more, (ascii "><y_" ++ more).drop 4 = more := fun more => rfl
  simp only [List.append_assoc, readCoord, hopen, hdrop, Bool.not_true, Bool.false_eq_true,
    if_false]
  rw [readNumber_number hx rfl]
  simp only [hmiddle, hdrop', Bool.not_true, Bool.false_eq_true, if_false]
  rw [readNumber_number hy rfl]
  rfl

theorem pair_readCoord {l rest : Bytes} (h : (readCoord l).rest = some rest) :
    ∃ xy s, IsPair xy s ∧ l = s ++ rest := by
  unfold readCoord at h
  split at h
  · cases h
  · rename_i hopen
    split at h
    · cases h
    · rename_i x afterX hx
      split at h
      · cases h
      · rename_i hmiddle
        split at h
        · cases h
        · rename_i y afterY hy
          dsimp only at h
          split at h
          · rename_i hclose
            cases h
            obtain ⟨hxn, hxl⟩ := readNumber_some hx
            obtain ⟨hyn, hyl⟩ := readNumber_some hy
            obtain ⟨inner, rfl⟩ :=
              List.isPrefixOf_iff_prefix.1
              (show (ascii "<x_").isPrefixOf l = true by simpa using hopen)
            obtain ⟨inner', rfl⟩ := List.isPrefixOf_iff_prefix.1
              (show (ascii "><y_").isPrefixOf afterX = true by simpa using hmiddle)
            change inner = _ at hxl
            change inner' = _ at hyl
            refine ⟨(x, y), _, ⟨hxn, hyn, rfl⟩, ?_⟩
            cases afterY with
            | nil => cases hclose
            | cons c afterY =>
              have hc : c = 0x3E := by simpa using hclose
              rw [hxl, hyl, hc]
              simp only [List.append_assoc]
              rfl
          · cases h

theorem open_append {l : Bytes} (hl : l ≠ []) (more : Bytes) :
    (ascii "<x_").isPrefixOf (l ++ 0x3C :: 0x78 :: more) = (ascii "<x_").isPrefixOf l := by
  have hopen : ascii "<x_" = [0x3C, 0x78, 0x5F] := by decide
  rw [hopen]
  match l, hl with
  | [a], _ => simp [List.isPrefixOf]
  | [a, b], _ => simp [List.isPrefixOf]
  | a :: b :: c :: l, _ => simp [List.isPrefixOf]

theorem middle_append (l more : Bytes) :
    (ascii "><y_").isPrefixOf (l ++ 0x3C :: 0x78 :: more) = (ascii "><y_").isPrefixOf l := by
  have hmiddle : ascii "><y_" = [0x3E, 0x3C, 0x79, 0x5F] := by decide
  rw [hmiddle]
  match l with
  | [] => simp [List.isPrefixOf]
  | [a] => simp [List.isPrefixOf]
  | [a, b] => simp [List.isPrefixOf]
  | [a, b, c] => simp [List.isPrefixOf]
  | a :: b :: c :: d :: l => simp [List.isPrefixOf]

/-- In front of a position where a pair starts, the same numbers are read
without it. -/
theorem readCoord_append {l : Bytes} (hl : l ≠ []) (more : Bytes) :
    (readCoord (l ++ 0x3C :: 0x78 :: more)).x = (readCoord l).x ∧
      (readCoord (l ++ 0x3C :: 0x78 :: more)).y = (readCoord l).y := by
  have hdrop : ∀ {needle l' : Bytes}, needle.isPrefixOf l' = true →
      (l' ++ 0x3C :: 0x78 :: more).drop needle.length =
        l'.drop needle.length ++ 0x3C :: 0x78 :: more := by
    intro needle l' hneedle
    exact List.drop_append_of_le_length (List.isPrefixOf_iff_prefix.1 hneedle).length_le
  unfold readCoord
  rw [open_append hl]
  cases hopen : (ascii "<x_").isPrefixOf l with
  | false => exact ⟨rfl, rfl⟩
  | true =>
    have h3 := hdrop hopen
    rw [show (ascii "<x_").length = 3 from rfl] at h3
    simp only [Bool.not_true, Bool.false_eq_true, if_false]
    rw [h3, readNumber_append]
    cases readNumber (l.drop 3) with
    | none => exact ⟨rfl, rfl⟩
    | some r =>
      obtain ⟨x, afterX⟩ := r
      simp only [Option.map_some]
      rw [middle_append]
      cases hmiddle : (ascii "><y_").isPrefixOf afterX with
      | false => exact ⟨rfl, rfl⟩
      | true =>
        have h4 := hdrop hmiddle
        rw [show (ascii "><y_").length = 4 from rfl] at h4
        simp only [Bool.not_true, Bool.false_eq_true, if_false]
        rw [h4, readNumber_append]
        cases readNumber (afterX.drop 4) with
        | none => exact ⟨rfl, rfl⟩
        | some r => exact ⟨rfl, rfl⟩

/-! ## The tokens of the expression -/

def pairToken : Token UInt8 (Bytes × Bytes) where
  lang := IsPair
  read l :=
    match readCoord l with
    | ⟨some x, some y, some rest⟩ => some ((x, y), rest)
    | _ => none
  read_iff := by
    intro l xy rest
    constructor
    · intro h
      have hrest : (readCoord l).rest = some rest := by
        split at h
        · rename_i hread
          cases h
          rw [hread]
        · cases h
      obtain ⟨xy', s, hs, rfl⟩ := pair_readCoord hrest
      rw [readCoord_pair hs] at h
      cases h
      exact ⟨s, hs, rfl⟩
    · rintro ⟨s, hs, rfl⟩
      rw [readCoord_pair hs]
  ne_nil := by
    rintro xy s ⟨-, -, rfl⟩ hnil
    exact absurd (List.append_eq_nil_iff.1 hnil).1 (by decide)

theorem pairToken_none {l : Bytes} (h : (readCoord l).rest = none) : pairToken.read l = none := by
  cases hread : pairToken.read l with
  | none => rfl
  | some r =>
    obtain ⟨s, hs, rfl⟩ := (pairToken.read_iff _ _ _).1 hread
    rw [readCoord_pair hs] at h
    cases h

theorem classToken_iff (l name rest : Bytes) : classToken l = some (name, rest) ↔
    name ≠ [] ∧ 0x3E ∉ name ∧ l = ascii "<class_" ++ (name ++ 0x3E :: rest) := by
  constructor
  · intro h
    unfold classToken at h
    split at h
    · cases h
    · rename_i hopen
      obtain ⟨inner, rfl⟩ := List.isPrefixOf_iff_prefix.1
        (show (ascii "<class_").isPrefixOf l = true by simpa using hopen)
      rw [show (ascii "<class_" ++ inner).drop 7 = inner from rfl] at h
      cases hfind : findByte 0x3E inner with
      | none =>
        rw [hfind] at h
        cases h
      | some r =>
        obtain ⟨before, close⟩ := r
        rw [hfind] at h
        dsimp only at h
        split at h
        · cases h
        · rename_i hname
          cases h
          obtain ⟨hclose, hnot⟩ := findByte_head hfind
          refine ⟨by simpa using hname, hnot, ?_⟩
          rw [← hclose, ← (findByte_eq hfind).1]
  · rintro ⟨hne, hnot, rfl⟩
    have hopen : (ascii "<class_").isPrefixOf (ascii "<class_" ++ (name ++ 0x3E :: rest)) = true :=
      List.isPrefixOf_iff_prefix.2 ⟨_, rfl⟩
    rw [classToken, hopen, show (ascii "<class_" ++ (name ++ 0x3E :: rest)).drop 7 =
      name ++ 0x3E :: rest from rfl, findByte_append hnot]
    simp [hne]

/-- A pair of coordinates and a class. -/
def closingToken : Token UInt8 ((Bytes × Bytes) × Bytes) where
  lang c s := ∃ pair, IsPair c.1 pair ∧ c.2 ≠ [] ∧ 0x3E ∉ c.2 ∧
    s = pair ++ (ascii "<class_" ++ (c.2 ++ [0x3E]))
  read l := (pairToken.read l).bind fun r => (classToken r.2).map fun c => ((r.1, c.1), c.2)
  read_iff := by
    intro l c rest
    constructor
    · intro h
      obtain ⟨⟨xy, after⟩, hpair, hclass⟩ := Option.bind_eq_some_iff.1 h
      obtain ⟨⟨name, rest'⟩, hname, he⟩ := Option.map_eq_some_iff.1 hclass
      cases he
      obtain ⟨pair, hs, rfl⟩ := (pairToken.read_iff _ _ _).1 hpair
      obtain ⟨hne, hnot, hafter⟩ := (classToken_iff _ _ _).1 hname
      refine ⟨_, ⟨pair, hs, hne, hnot, rfl⟩, ?_⟩
      dsimp only at hafter
      rw [hafter]
      simp
    · rintro ⟨s, ⟨pair, hs, hne, hnot, rfl⟩, rfl⟩
      have hpair : pairToken.read (pair ++ (ascii "<class_" ++ (c.2 ++ 0x3E :: rest))) =
          some (c.1, ascii "<class_" ++ (c.2 ++ 0x3E :: rest)) := LazyMatch.read_lang pairToken hs _
      have hclass :=
        (classToken_iff (ascii "<class_" ++ (c.2 ++ 0x3E :: rest)) c.2 rest).2 ⟨hne, hnot, rfl⟩
      have hl : pair ++ (ascii "<class_" ++ (c.2 ++ [0x3E])) ++ rest =
          pair ++ (ascii "<class_" ++ (c.2 ++ 0x3E :: rest)) := by simp
      rw [hl, hpair, Option.bind_some, hclass]
      rfl
  ne_nil := by
    rintro c s ⟨pair, -, -, -, rfl⟩ hnil
    have hnil' := (List.append_eq_nil_iff.1 (List.append_eq_nil_iff.1 hnil).2).1
    exact absurd hnil' (by decide)

theorem isDigit_ne {b c : UInt8} (hb : isDigit b = true) (hc : isDigit c = false) : b ≠ c := by
  rintro rfl
  rw [hb] at hc
  cases hc

theorem IsNumber.no_open {n : Bytes} (h : IsNumber n) : 0x3C ∉ n := by
  have hdigits : ∀ {l : Bytes}, Digits l → 0x3C ∉ l :=
    fun hl hmem => isDigit_ne (hl.2 _ hmem) rfl rfl
  rcases h with hn | ⟨whole, fraction, hwhole, hfraction, rfl⟩
  · exact hdigits hn
  · rw [List.mem_append, List.mem_cons, not_or, not_or]
    exact ⟨hdigits hwhole, by decide, hdigits hfraction⟩

/-- A text with one `c` in it is cut in front of a `c` in one way. -/
theorem cut_unique {c : UInt8} {front more left right : Bytes}
    (h : front ++ c :: more = left ++ c :: right)
    (hleft : c ∉ left) (hright : c ∉ right) : front = left ∧ more = right := by
  rcases List.append_eq_append_iff.1 h with ⟨middle, hfront, hcut⟩ | ⟨middle, hfront, hcut⟩
  · cases middle with
    | nil => exact ⟨by rw [hfront, List.append_nil], (List.cons.inj hcut).2⟩
    | cons b middle =>
      obtain ⟨rfl, -⟩ := List.cons.inj hcut
      exact absurd (by rw [hfront]; simp) hleft
  · cases middle with
    | nil => exact ⟨by rw [hfront, List.append_nil], (List.cons.inj hcut).2.symm⟩
    | cons b middle =>
      obtain ⟨rfl, hmore⟩ := List.cons.inj hcut
      exact absurd (by rw [hmore]; simp) hright

/-- The other `<` of a pair is not in front of an `x`. -/
theorem pairToken_apart : pairToken.Apart := by
  rintro xy s ⟨hx, hy, rfl⟩ front back rest hs hfront hback
  cases hread : pairToken.read (back ++ rest) with
  | none => rfl
  | some r =>
    obtain ⟨s', ⟨-, -, hs'⟩, hback'⟩ := (pairToken.read_iff _ _ _).1 hread
    exfalso
    obtain ⟨b, front, rfl⟩ := List.exists_cons_of_ne_nil hfront
    obtain ⟨a, back, rfl⟩ := List.exists_cons_of_ne_nil hback
    have ha : a = 0x3C := by
      rw [hs'] at hback'
      exact (List.cons.inj hback').1
    subst ha
    have hcut : front ++ 0x3C :: back =
      (ascii "x_" ++ (xy.1 ++ [0x3E])) ++ 0x3C :: (ascii "y_" ++ (xy.2 ++ [0x3E])) := by
      have htail := congrArg List.tail hs
      simp only [List.cons_append, List.tail_cons] at htail
      rw [← htail]
      simp only [List.append_assoc]
      rfl
    obtain ⟨-, rfl⟩ := cut_unique hcut
      (by simp only [List.mem_append, not_or]; exact ⟨by decide, hx.no_open, by decide⟩)
      (by simp only [List.mem_append, not_or]; exact ⟨by decide, hy.no_open, by decide⟩)
    rw [hs'] at hback'
    have hsecond := (List.cons.inj (List.cons.inj hback').2).1
    exact absurd hsecond (by decide)

/-! ## The regions are the matches -/

abbrev RegionMatch := Found UInt8 (Bytes × Bytes) ((Bytes × Bytes) × Bytes)

/-- The matches of the expression in a text. -/
abbrev Matches : Bytes → List RegionMatch → Prop := LazyMatch.Finditer pairToken closingToken

section Regions
variable {ν : Type} (fromChars : Bytes → Option ν)

/-- What the pairs that were tried in a body leave in the coordinates. -/
def tried : ν × ν → Bytes → ν × ν
  | xy, [] => xy
  | xy, b :: l => tried (coordToken fromChars (b :: l) xy).2 l

/-- The loop stops at the first closing, with the coordinates read over those
that were tried in front of it. -/
theorem closeFrom_eq (l : Bytes) : ∀ xy : ν × ν, closeFrom fromChars xy l =
    (LazyMatch.firstClosing closingToken l).map fun r =>
      (r.1, r.2.1.2, (assign fromChars (tried fromChars xy r.1).1 r.2.1.1.1,
        assign fromChars (tried fromChars xy r.1).2 r.2.1.1.2), r.2.2) := by
  induction l with
  | nil => intro xy; rfl
  | cons b l ih =>
    intro xy
    have hmiss : closingToken.read (b :: l) = none →
        ((closeFrom fromChars ((readCoord (b :: l)).into fromChars xy) l).map fun r =>
          (b :: r.1, r.2)) = (LazyMatch.firstClosing closingToken (b :: l)).map fun r =>
            (r.1, r.2.1.2, (assign fromChars (tried fromChars xy r.1).1 r.2.1.1.1,
              assign fromChars (tried fromChars xy r.1).2 r.2.1.1.2), r.2.2) := by
      intro hread
      rw [ih, LazyMatch.firstClosing, hread]
      cases hfirst : LazyMatch.firstClosing closingToken l with
      | none => rfl
      | some r =>
        obtain ⟨body, c, rest⟩ := r
        obtain ⟨t, ⟨pair, ⟨-, -, hpair⟩, -, -, ht⟩, hl, -⟩ := LazyMatch.firstClosing_some hfirst
        -- The closing starts with `<x_`, so the pairs in front are read in the body alone.
        obtain ⟨more, hmore⟩ : ∃ more, l = body ++ 0x3C :: 0x78 :: more := by
          rw [hl, ht, hpair]
          exact ⟨_, rfl⟩
        have hsame := readCoord_append (List.cons_ne_nil b body) more
        rw [List.cons_append, ← hmore] at hsame
        have hinto : (readCoord (b :: l)).into fromChars xy =
          (readCoord (b :: body)).into fromChars xy := by
          rw [Reading.into, Reading.into, hsame.1, hsame.2]
        simp only [Option.map_some, tried, coordToken_eq, hinto]
    rw [closeFrom, coordToken_eq]
    cases hrest : (readCoord (b :: l)).rest with
    | none =>
      refine hmiss ?_
      show (pairToken.read (b :: l)).bind _ = none
      rw [pairToken_none hrest]
      rfl
    | some after =>
      obtain ⟨c, s, hs, hl⟩ := pair_readCoord hrest
      have hpair : pairToken.read (b :: l) = some (c, after) :=
        (pairToken.read_iff _ _ _).2 ⟨s, hs, hl⟩
      dsimp only
      cases hclass : classToken after with
      | none =>
        refine hmiss ?_
        show (pairToken.read (b :: l)).bind _ = none
        rw [hpair, Option.bind_some, hclass]
        rfl
      | some r =>
        have hread : closingToken.read (b :: l) = some ((c, r.1), r.2) := by
          show (pairToken.read (b :: l)).bind _ = _
          rw [hpair, Option.bind_some, hclass]
          rfl
        rw [LazyMatch.firstClosing, hread, hl, readCoord_pair hs]
        rfl

variable [Zero ν]

/-- The region of a match, with its closing pair read over `left`. -/
def matchRegion (left : ν × ν) (m : RegionMatch) : Region ν where
  x1 := assign fromChars 0 m.opening.1
  y1 := assign fromChars 0 m.opening.2
  x2 := assign fromChars left.1 m.closing.1.1
  y2 := assign fromChars left.2 m.closing.1.2
  text := m.body
  label := if m.closing.2 = ascii "Inline-formula" then ascii "Formula" else m.closing.2

theorem regionsFrom_eq : ∀ (n : Nat) (l : Bytes), regionsFrom fromChars n l =
    (LazyMatch.finditer pairToken closingToken n l).map fun m =>
      matchRegion fromChars (tried fromChars (0, 0) m.body) m := by
  intro n
  induction n with
  | zero => intro l; rfl
  | succ n ih =>
    intro l
    cases l with
    | nil => rfl
    | cons b l =>
      rw [regionsFrom, LazyMatch.finditer, coordToken_eq]
      cases hrest : (readCoord (b :: l)).rest with
      | none =>
        rw [pairToken_none hrest]
        exact ih l
      | some inner =>
        obtain ⟨c, s, hs, hl⟩ := pair_readCoord hrest
        have hpair : pairToken.read (b :: l) = some (c, inner) :=
          (pairToken.read_iff _ _ _).2 ⟨s, hs, hl⟩
        rw [hpair]
        dsimp only
        rw [closeFrom_eq]
        cases LazyMatch.firstClosing closingToken inner with
        | none => rfl
        | some r =>
          rw [hl, readCoord_pair hs]
          simp only [Option.map_some, ih]
          rfl

/-- **The matches.** One region for each match, with its body, its class and its
opening pair; its closing pair is read over what was tried in the body. -/
theorem nemotronV2Regions_eq (text : Bytes) : ∃ ms, Matches text ms ∧
    nemotronV2Regions fromChars text =
      ms.map fun m => matchRegion fromChars (tried fromChars (0, 0) m.body) m :=
  ⟨_, LazyMatch.finditer_spec pairToken_apart (Nat.le_refl _), regionsFrom_eq fromChars _ _⟩

/-- The regions are those of the matches, each read by itself. -/
def SameAsMatches (text : Bytes) : Prop :=
  ∃ ms, Matches text ms ∧ nemotronV2Regions fromChars text = ms.map (matchRegion fromChars (0, 0))

/-- A closing number out of range finds a zero in its coordinate. -/
def Fresh (m : RegionMatch) : Prop :=
  (fromChars m.closing.1.1 = none → (tried fromChars (0, 0) m.body).1 = 0) ∧
    (fromChars m.closing.1.2 = none → (tried fromChars (0, 0) m.body).2 = 0)

theorem assign_iff (value : ν) (number : Bytes) :
    assign fromChars value number = assign fromChars 0 number ↔
      (fromChars number = none → value = 0) := by
  rw [assign, assign]
  cases fromChars number with
  | none => simp
  | some v => simp

theorem matchRegion_iff (left : ν × ν) (m : RegionMatch) :
    matchRegion fromChars left m = matchRegion fromChars (0, 0) m ↔
      (fromChars m.closing.1.1 = none → left.1 = 0) ∧
        (fromChars m.closing.1.2 = none → left.2 = 0) := by
  rw [← assign_iff, ← assign_iff]
  simp [matchRegion]

end Regions

/-! ## A coordinate of another pair -/

/-- The value of a decimal number; from `2 ^ 1024 - 2 ^ 970` on it rounds past
the largest `double`, and `std::from_chars` reports that it is out of range. -/
def decimalValue (number : Bytes) : Option ℚ :=
  let whole := number.takeWhile isDigit
  let fraction := (number.dropWhile isDigit).drop 1
  let value : ℚ := ofDigits whole + ofDigits fraction / 10 ^ fraction.length
  if value < 2 ^ 1024 - 2 ^ 970 then some value else none

/-- A pair without a class stands in front of a closing pair that is far out. -/
def farOut : Bytes :=
  ascii "<x_0><y_0>a<x_5><y_6>b<x_1" ++ List.replicate 400 0x30 ++ ascii "><y_1><class_Text>"

end VlmConvert.L3.Nemotron

import VlmConvert.Core.Lts

/-!
# Byte strings

`std::string` is a list of bytes. A position in a string is modelled by the
suffix that starts there, so a scan returns what it passed over and what is
left. Character classes are those of the "C" locale.
-/
namespace VlmConvert

abbrev Bytes := List UInt8

instance : LawfulBEq Bytes := inferInstance

namespace Bytes

/-- The bytes of an ASCII literal. -/
def ascii (s : String) : Bytes := s.toList.map fun c => c.toNat.toUInt8

/-- A literal is its characters, without decoding it. -/
theorem ascii_ofList (cs : List Char) :
    ascii (String.ofList cs) = cs.map fun c => c.toNat.toUInt8 := by
  rw [ascii, String.toList_ofList]

/-- `std::isalpha` -/
def isAlpha (b : UInt8) : Bool := (0x41 ≤ b && b ≤ 0x5A) || (0x61 ≤ b && b ≤ 0x7A)

/-- `std::isdigit` -/
def isDigit (b : UInt8) : Bool := 0x30 ≤ b && b ≤ 0x39

/-- `std::isalnum` -/
def isAlnum (c : UInt8) : Bool := isAlpha c || isDigit c

/-- The bytes `trim` takes off. -/
def isBlank (b : UInt8) : Bool := b == 0x20 || b == 0x09 || b == 0x0D || b == 0x0A

/-- mirrors src/mapping/builder.h:429-436 -/
def trim (text : Bytes) : Bytes := (text.dropWhile isBlank).rdropWhile isBlank

/-- `std::isspace`, and the `is_space` of the mappers. -/
def isSpace (b : UInt8) : Bool := b == 0x20 || (0x09 ≤ b && b ≤ 0x0D)

/-- mirrors src/mapping/deepseek.cpp:33-41 -/
def stripView (text : Bytes) : Bytes := (text.dropWhile isSpace).rdropWhile isSpace

/-- `std::tolower` -/
def toLower (b : UInt8) : UInt8 := if 0x41 ≤ b && b ≤ 0x5A then b + 0x20 else b

/-- `std::string::find` of a non-empty needle: what stands before the first
occurrence, and the rest from it on; `none` is `npos`. -/
def findSub (needle : Bytes) : Bytes → Option (Bytes × Bytes)
  | [] => none
  | b :: rest =>
    if needle.isPrefixOf (b :: rest) then some ([], b :: rest)
    else (findSub needle rest).map fun r => (b :: r.1, r.2)

/-- `std::string::find` of one character. -/
def findByte (c : UInt8) (l : Bytes) : Option (Bytes × Bytes) :=
  match l.dropWhile (· != c) with
  | [] => none
  | b :: rest => some (l.takeWhile (· != c), b :: rest)

theorem findSub_eq {needle l before rest : Bytes} (h : findSub needle l = some (before, rest)) :
    l = before ++ rest := by
  induction l generalizing before with
  | nil => cases h
  | cons b l ih =>
    simp only [findSub] at h
    split at h
    · cases h; rfl
    · simp only [Option.map_eq_some_iff, Prod.mk.injEq] at h
      obtain ⟨⟨x, y⟩, hxy, rfl, rfl⟩ := h
      rw [ih hxy]; rfl

theorem findSub_starts {needle l before rest : Bytes} (h : findSub needle l = some (before, rest)) :
    needle <+: rest := by
  induction l generalizing before with
  | nil => cases h
  | cons b l ih =>
    simp only [findSub] at h
    split at h
    · rename_i hpre
      cases h
      exact List.isPrefixOf_iff_prefix.1 hpre
    · simp only [Option.map_eq_some_iff, Prod.mk.injEq] at h
      obtain ⟨⟨x, y⟩, hxy, -, rfl⟩ := h
      exact ih hxy

/-- A match is the first one whatever stands behind the text. -/
theorem findSub_append_right {needle l before rest : Bytes} (more : Bytes)
    (h : findSub needle l = some (before, rest)) :
    findSub needle (l ++ more) = some (before, rest ++ more) := by
  induction l generalizing before with
  | nil => cases h
  | cons b l ih =>
    have hlong : needle.length ≤ (b :: l).length := by
      have hpre := (findSub_starts h).length_le
      rw [findSub_eq h, List.length_append]
      omega
    simp only [findSub] at h
    rw [List.cons_append, findSub, ← List.cons_append]
    split at h
    · rename_i hpre
      cases h
      rw [if_pos]
      exact List.isPrefixOf_iff_prefix.2
        ((List.isPrefixOf_iff_prefix.1 hpre).trans (List.prefix_append _ _))
    · rename_i hpre
      obtain ⟨⟨x, y⟩, hxy, he⟩ := Option.map_eq_some_iff.1 h
      cases he
      rw [if_neg, ih hxy]
      · rfl
      · intro hm
        apply hpre
        rw [List.isPrefixOf_iff_prefix] at hm ⊢
        exact List.prefix_of_prefix_length_le hm (List.prefix_append _ _) hlong

theorem findByte_append_right {c : UInt8} {l before rest : Bytes} (more : Bytes)
    (h : findByte c l = some (before, rest)) :
    findByte c (l ++ more) = some (before, rest ++ more) := by
  unfold findByte at h
  split at h
  · cases h
  · rename_i b tail hdrop
    cases h
    have hne : l.dropWhile (· != c) ≠ [] := by rw [hdrop]; simp
    have hdrop' : (l ++ more).dropWhile (· != c) = b :: (tail ++ more) := by
      rw [List.dropWhile_append, if_neg (by simpa using hne), hdrop]
      rfl
    have htake : (l ++ more).takeWhile (· != c) = l.takeWhile (· != c) := by
      have h1 := List.takeWhile_append_dropWhile (p := (· != c)) (l := l ++ more)
      have h2 := List.takeWhile_append_dropWhile (p := (· != c)) (l := l)
      rw [hdrop'] at h1
      rw [hdrop] at h2
      have h3 : l.takeWhile (· != c) ++ b :: (tail ++ more) = l ++ more := by
        simpa using congrArg (· ++ more) h2
      exact List.append_cancel_right (h1.trans h3.symm)
    simp only [findByte, hdrop', htake]
    rfl

theorem findByte_none {c : UInt8} {l : Bytes} (h : c ∉ l) : findByte c l = none := by
  have hdrop : l.dropWhile (· != c) = [] :=
    List.dropWhile_eq_nil_iff.2 fun b hb => bne_iff_ne.2 fun e => h (e ▸ hb)
  simp [findByte, hdrop]

/-- The search stops at the first `c` behind text without one. -/
theorem findByte_append {c : UInt8} {text rest : Bytes} (h : c ∉ text) :
    findByte c (text ++ c :: rest) = some (text, c :: rest) := by
  have hne : ∀ b ∈ text, (b != c) = true := fun b hb => bne_iff_ne.2 fun e => h (e ▸ hb)
  have hdrop : (text ++ c :: rest).dropWhile (· != c) = c :: rest := by
    rw [List.dropWhile_append_of_pos hne]; simp
  have htake : (text ++ c :: rest).takeWhile (· != c) = text := by
    rw [List.takeWhile_append_of_pos hne]; simp
  simp [findByte, hdrop, htake]

theorem findByte_cons {c b : UInt8} (h : b ≠ c) (l : Bytes) :
    findByte c (b :: l) = (findByte c l).map fun r => (b :: r.1, r.2) := by
  have hb : (b != c) = true := bne_iff_ne.2 h
  unfold findByte
  simp only [List.dropWhile_cons, List.takeWhile_cons, hb, if_true]
  cases l.dropWhile (· != c) <;> rfl

theorem findByte_eq {c : UInt8} {l before rest : Bytes} (h : findByte c l = some (before, rest)) :
    l = before ++ rest ∧ 0 < rest.length := by
  unfold findByte at h
  split at h
  · cases h
  · rename_i b rest' hd
    cases h
    exact ⟨by rw [← hd, List.takeWhile_append_dropWhile], Nat.succ_pos _⟩

theorem findByte_head {c : UInt8} {l before rest : Bytes} (h : findByte c l = some (before, rest)) :
    rest = c :: rest.drop 1 ∧ c ∉ before := by
  unfold findByte at h
  split at h
  · cases h
  · rename_i b rest' hd
    cases h
    have hb : b = c := by
      have := List.head?_dropWhile_not (· != c) l
      rw [hd] at this
      simpa using this
    refine ⟨by rw [hb]; rfl, fun hc => ?_⟩
    have := List.mem_takeWhile_imp hc
    simp at this

/-! ## Searching past text -/

/-- `needle` starts at no byte of `l`, whatever stands behind `l`. -/
def Skips (needle l : Bytes) : Prop :=
  ∀ before after, l = before ++ after → after ≠ [] → ∀ rest, ¬ needle <+: after ++ rest

theorem Skips.append {needle l l' : Bytes} (h : Skips needle l) (h' : Skips needle l') :
    Skips needle (l ++ l') := by
  intro before after heq hne rest
  rcases List.append_eq_append_iff.1 heq with ⟨as, rfl, hl'⟩ | ⟨bs, hl, rfl⟩
  · exact h' as after hl' hne rest
  · by_cases hbs : bs = []
    · subst hbs
      exact h' [] l' rfl (by simpa using hne) rest
    · rw [List.append_assoc]
      exact h before bs hl hbs (l' ++ rest)

theorem Skips.flatMap {α : Type} {needle : Bytes} {f : α → Bytes} : ∀ {l : List α},
    (∀ x ∈ l, Skips needle (f x)) → Skips needle (l.flatMap f) := by
  intro l
  induction l with
  | nil =>
    intro _ before after heq hne
    exact absurd (List.append_eq_nil_iff.1 heq.symm).2 hne
  | cons x l ih =>
    intro h
    rw [List.flatMap_cons]
    exact (h x List.mem_cons_self).append (ih fun y hy => h y (List.mem_cons_of_mem x hy))

/-- A text that does not start as the needle, and has the needle's first
byte nowhere else. -/
theorem skips_of_head {c : UInt8} {needle l : Bytes} (hc : needle.head? = some c)
    (hstart : ∀ rest, needle.isPrefixOf (l ++ rest) = false) (htail : c ∉ l.drop 1) :
    Skips needle l := by
  intro before after heq hne rest hpre
  cases before with
  | nil =>
    rw [List.nil_append] at heq
    have := hstart rest
    rw [heq, List.isPrefixOf_iff_prefix.2 hpre] at this
    cases this
  | cons b before =>
    obtain ⟨a, after', rfl⟩ := List.exists_cons_of_ne_nil hne
    cases needle with
    | nil => cases hc
    | cons c' needle =>
      rw [List.cons_append, List.cons_prefix_cons] at hpre
      have hca : c = a := (Option.some.inj hc).symm.trans hpre.1
      apply htail
      rw [heq, hca]
      simp

theorem skips_of_notMem {c : UInt8} {needle l : Bytes} (hc : needle.head? = some c) (h : c ∉ l) :
    Skips needle l := by
  intro before after heq hne rest hpre
  obtain ⟨a, after', rfl⟩ := List.exists_cons_of_ne_nil hne
  cases needle with
  | nil => cases hc
  | cons c' needle =>
    rw [List.cons_append, List.cons_prefix_cons] at hpre
    have hca : c = a := (Option.some.inj hc).symm.trans hpre.1
    exact h (by rw [heq, hca]; simp)

theorem Skips.cons {c : UInt8} {needle l : Bytes} (hc : ∀ rest, ¬ needle <+: c :: (l ++ rest))
    (hl : Skips needle l) : Skips needle (c :: l) := by
  intro before after heq hne rest
  cases before with
  | nil =>
    rw [List.nil_append] at heq
    rw [← heq]
    exact hc rest
  | cons b before => exact hl before after (List.cons.inj heq).2 hne rest

theorem findSub_none {needle : Bytes} :
    ∀ {l : Bytes}, Skips needle l → findSub needle l = none := by
  intro l
  induction l with
  | nil => intro _; rfl
  | cons c l ih =>
    intro h
    have hno : ¬ needle.isPrefixOf (c :: l) = true := by
      rw [List.isPrefixOf_iff_prefix]
      simpa using h [] (c :: l) rfl (by simp) []
    rw [findSub, if_neg hno, ih fun before after heq => h (c :: before) after (by rw [heq]; rfl)]
    rfl

theorem not_infix_of_findSub {needle : Bytes} (hne : needle ≠ []) : ∀ {l : Bytes},
    findSub needle l = none → ¬needle <:+: l := by
  intro l
  induction l with
  | nil =>
    intro _ hinfix
    exact hne (List.infix_nil.1 hinfix)
  | cons b l ih =>
    intro h hinfix
    rw [findSub] at h
    split at h
    · cases h
    · rename_i hno
      rcases List.infix_cons_iff.1 hinfix with hprefix | hinfix
      · exact hno (List.isPrefixOf_iff_prefix.2 hprefix)
      · exact ih (Option.map_eq_none_iff.1 h) hinfix

theorem infix_flatMap {α : Type} {x : α} {l : List α} (h : x ∈ l) (f : α → Bytes) :
    f x <:+: l.flatMap f := by
  obtain ⟨before, after, rfl⟩ := List.append_of_mem h
  exact ⟨before.flatMap f, after.flatMap f, by simp⟩

/-- The first match behind text that holds none. -/
theorem findSub_skips {needle rest : Bytes} (hrest : needle.isPrefixOf rest = true)
    (hne : rest ≠ []) :
    ∀ {l : Bytes}, Skips needle l → findSub needle (l ++ rest) = some (l, rest) := by
  intro l
  induction l with
  | nil =>
    intro _
    obtain ⟨b, rest, rfl⟩ := List.exists_cons_of_ne_nil hne
    rw [List.nil_append, findSub, if_pos hrest]
  | cons b l ih =>
    intro h
    have hno : ¬ needle.isPrefixOf (b :: (l ++ rest)) = true := by
      rw [List.isPrefixOf_iff_prefix]
      exact h [] (b :: l) rfl (by simp) rest
    have htail : Skips needle l := fun before after heq => h (b :: before) after (by rw [heq]; rfl)
    rw [List.cons_append, findSub, if_neg hno, ih htail]
    rfl

/-- A needle whose first byte does not come again in it is found behind text
that does not hold it. -/
theorem findSub_behind {c : UInt8} {needle : Bytes} (hc : c ∉ needle) (rest : Bytes) :
    ∀ {body : Bytes}, findSub (c :: needle) body = none →
      findSub (c :: needle) (body ++ (c :: needle ++ rest)) = some (body, c :: needle ++ rest) := by
  intro body
  induction body with
  | nil =>
    intro _
    rw [List.nil_append, List.cons_append, findSub, if_pos]
    exact List.isPrefixOf_iff_prefix.2 (List.prefix_append _ _)
  | cons b body ih =>
    intro h
    rw [findSub] at h
    split at h
    · cases h
    · rename_i hno
      have hbody : findSub (c :: needle) body = none := Option.map_eq_none_iff.1 h
      have hnot : ¬ (c :: needle).isPrefixOf (b :: (body ++ (c :: needle ++ rest))) = true := by
        intro hpre
        rw [List.isPrefixOf_iff_prefix] at hpre hno
        have hb : b :: body <+: b :: (body ++ (c :: needle ++ rest)) :=
          List.prefix_append (b :: body) _
        rcases List.prefix_or_prefix_of_prefix hpre hb with hle | ⟨tail, htail⟩
        · exact hno hle
        · -- the match would start in the text and run into the needle behind it
          obtain ⟨more, hmore⟩ := hpre
          rw [← htail, List.append_assoc, ← List.cons_append, List.append_cancel_left_eq] at hmore
          cases tail with
          | nil => exact hno ⟨[], by simpa using htail.symm⟩
          | cons t tail =>
            rw [List.cons_append, List.cons_append, List.cons_append, List.cons.injEq] at hmore
            rw [List.cons_append, List.cons.injEq] at htail
            apply hc
            rw [← htail.2, ← htail.1, ← hmore.1]
            simp
      rw [List.cons_append, findSub, if_neg hnot, ih hbody]
      rfl

/-- So is a needle whose last byte does not come before in it. -/
theorem findSub_before {c : UInt8} {needle : Bytes} (hc : c ∉ needle) (rest : Bytes) :
    ∀ {body : Bytes}, findSub (needle ++ [c]) body = none →
      findSub (needle ++ [c]) (body ++ (needle ++ [c] ++ rest)) =
        some (body, needle ++ [c] ++ rest) := by
  intro body
  induction body with
  | nil =>
    intro _
    have hpre : (needle ++ [c]).isPrefixOf (needle ++ [c] ++ rest) = true :=
      List.isPrefixOf_iff_prefix.2 (List.prefix_append _ _)
    rw [List.nil_append]
    generalize hx : needle ++ [c] ++ rest = text at hpre ⊢
    cases text with
    | nil => simp at hx
    | cons b text => rw [findSub, if_pos hpre]
  | cons b body ih =>
    intro h
    rw [findSub] at h
    split at h
    · cases h
    · rename_i hno
      have hbody : findSub (needle ++ [c]) body = none := Option.map_eq_none_iff.1 h
      have hnot : ¬ (needle ++ [c]).isPrefixOf (b :: (body ++ (needle ++ [c] ++ rest))) = true := by
        intro hpre
        rw [List.isPrefixOf_iff_prefix] at hpre hno
        have hb : b :: body <+: b :: (body ++ (needle ++ [c] ++ rest)) :=
          List.prefix_append (b :: body) _
        rcases List.prefix_or_prefix_of_prefix hpre hb with hle | ⟨tail, htail⟩
        · exact hno hle
        · -- the match would end inside the needle, before its last byte
          rcases List.eq_nil_or_concat tail with rfl | ⟨front, d, rfl⟩
          · exact hno ⟨[], by simpa using htail.symm⟩
          · rw [List.concat_eq_append, ← List.append_assoc] at htail
            obtain ⟨hfront, -⟩ := List.append_inj' htail rfl
            obtain ⟨more, hmore⟩ := hpre
            have hcancel : front ++ [c] ++ more = needle ++ [c] ++ rest := by
              apply @List.append_cancel_left _ (b :: body)
              calc (b :: body) ++ (front ++ [c] ++ more)
                  = b :: body ++ front ++ [c] ++ more := by simp
                _ = needle ++ [c] ++ more := by rw [hfront]
                _ = (b :: body) ++ (needle ++ [c] ++ rest) := hmore
            have hlen : front.length < needle.length := by
              rw [← hfront]
              simp
            have hat : (needle ++ [c] ++ rest)[front.length]? = some c := by
              rw [← hcancel]
              simp
            rw [List.append_assoc, List.getElem?_append_left hlen] at hat
            exact hc (List.mem_of_getElem? hat)
      rw [List.cons_append, findSub, if_neg hnot, ih hbody]
      rfl

/-! ## Whitespace -/

/-- A text without its whitespace. -/
def visible (text : Bytes) : Bytes := text.filter fun c => !isSpace c

@[simp] theorem visible_append (a b : Bytes) : visible (a ++ b) = visible a ++ visible b :=
  List.filter_append a b

theorem visible_eq_nil {text : Bytes} : visible text = [] ↔ text.all isSpace = true := by
  simp [visible]

theorem isSpace_of_isBlank {b : UInt8} (h : isBlank b = true) : isSpace b = true := by
  simp only [isBlank, Bool.or_eq_true, beq_iff_eq] at h
  rcases h with ((rfl | rfl) | rfl) | rfl <;> rfl

theorem visible_trim (text : Bytes) : visible (trim text) = visible text := by
  have hdrop : ∀ l : Bytes, visible (l.dropWhile isBlank) = visible l := by
    intro l
    induction l with
    | nil => rfl
    | cons b l ih =>
      rw [List.dropWhile_cons]
      split
      · rename_i hb
        rw [ih]
        simp [visible, isSpace_of_isBlank hb]
      · rfl
  have hrev : ∀ l : Bytes, visible l.reverse = (visible l).reverse := fun l => List.filter_reverse
  rw [trim, List.rdropWhile, hrev, hdrop, hrev, List.reverse_reverse, hdrop]

theorem trim_cons {b : UInt8} (h : isBlank b = true) (l : Bytes) : trim (b :: l) = trim l := by
  rw [trim, trim, List.dropWhile_cons_of_pos h]

theorem trim_concat {b : UInt8} (h : isBlank b = true) (l : Bytes) : trim (l ++ [b]) = trim l := by
  by_cases hall : ∀ c ∈ l, isBlank c = true
  · rw [trim, trim, List.dropWhile_append_of_pos hall, List.dropWhile_cons_of_pos h,
      List.dropWhile_eq_nil_iff.2 hall]
    rfl
  · have hne : l.dropWhile isBlank ≠ [] := fun hnil => hall (List.dropWhile_eq_nil_iff.1 hnil)
    rw [trim, trim, List.dropWhile_append, if_neg (by simpa using hne),
      List.rdropWhile_concat_pos _ _ _ h]

theorem length_trim_le (l : Bytes) : (trim l).length ≤ l.length :=
  ((List.rdropWhile_prefix isBlank _).length_le).trans (List.dropWhile_suffix isBlank).length_le

/-- Trimming twice is trimming once. -/
theorem trim_trim (text : Bytes) : trim (trim text) = trim text := by
  have hdrop : (trim text).dropWhile isBlank = trim text := by
    have hpre : trim text <+: text.dropWhile isBlank := List.rdropWhile_prefix _ _
    cases htrim : trim text with
    | nil => rfl
    | cons b rest =>
      rw [htrim] at hpre
      obtain ⟨more, hmore⟩ := hpre
      have hb : isBlank b = false := by
        have := List.head?_dropWhile_not isBlank text
        rw [← hmore] at this
        simpa using this
      rw [List.dropWhile_cons_of_neg (by simp [hb])]
  rw [trim, hdrop, trim, List.rdropWhile_idempotent]

theorem sublist_dropWhile {α : Type} (p : α → Bool) {a b : List α} (h : a.Sublist b) :
    (a.dropWhile p).Sublist (b.dropWhile p) := by
  induction h with
  | slnil => exact .slnil
  | @cons a b x h ih =>
    cases hx : p x with
    | true => rwa [List.dropWhile_cons_of_pos hx]
    | false =>
      rw [List.dropWhile_cons_of_neg (by simp [hx])]
      exact (List.dropWhile_sublist p).trans (h.cons x)
  | @cons_cons a b x h ih =>
    cases hx : p x with
    | true => rwa [List.dropWhile_cons_of_pos hx, List.dropWhile_cons_of_pos hx]
    | false =>
      rw [List.dropWhile_cons_of_neg (by simp [hx]), List.dropWhile_cons_of_neg (by simp [hx])]
      exact h.cons_cons x

/-- Part of a text, trimmed, is part of the trimmed text. -/
theorem sublist_trim {a b : Bytes} (h : a.Sublist b) : (trim a).Sublist (trim b) :=
  (sublist_dropWhile isBlank (sublist_dropWhile isBlank h).reverse).reverse

theorem trim_eq {x : Bytes} {c d : UInt8} {y z : Bytes} (hx : x = c :: y) (hx' : x = z ++ [d])
    (hc : isBlank c = false) (hd : isBlank d = false) : trim x = x := by
  have hdrop : x.dropWhile isBlank = x := by
    rw [hx, List.dropWhile_cons, hc]
    rfl
  rw [trim, hdrop, hx', List.rdropWhile_concat_neg _ _ _ (by simp [hd])]

/-! ## Decimal numbers -/

/-- The last `fuel` digits of `n`. -/
def decimalAux : Nat → Nat → Bytes
  | 0, _ => []
  | fuel + 1, n =>
    if n < 10 then [(0x30 + n).toUInt8] else decimalAux fuel (n / 10) ++ [(0x30 + n % 10).toUInt8]

/-- `std::to_string` of an unsigned number. -/
def decimal (n : Nat) : Bytes := decimalAux (n + 1) n

/-- `std::to_string` of a signed number. -/
def decimalInt (i : Int) : Bytes :=
  if i < 0 then 0x2D :: decimal i.natAbs else decimal i.natAbs

/-- The number a run of digits stands for. -/
def ofDigits (digits : Bytes) : Nat := digits.foldl (fun n d => n * 10 + (d.toNat - 0x30)) 0

theorem digit_toNat {d : Nat} (h : d < 10) : (0x30 + d).toUInt8.toNat = 0x30 + d := by
  simp only [Nat.toUInt8, UInt8.toNat_ofNat']
  omega

theorem isDigit_digit {d : Nat} (h : d < 10) : isDigit (0x30 + d).toUInt8 = true := by
  simp only [isDigit, Bool.and_eq_true, decide_eq_true_eq, UInt8.le_iff_toNat_le, digit_toNat h]
  exact ⟨by simp, by simp; omega⟩

theorem decimalAux_digits : ∀ (fuel n : Nat), ∀ b ∈ decimalAux fuel n, isDigit b = true := by
  intro fuel
  induction fuel with
  | zero => intro n b hb; cases hb
  | succ fuel ih =>
    intro n b hb
    simp only [decimalAux] at hb
    split at hb
    · rename_i hlt
      rw [List.mem_singleton.1 hb]
      exact isDigit_digit hlt
    · rcases List.mem_append.1 hb with hb | hb
      · exact ih _ b hb
      · rw [List.mem_singleton.1 hb]
        exact isDigit_digit (Nat.mod_lt _ (by decide))

theorem decimal_digits (n : Nat) : ∀ b ∈ decimal n, isDigit b = true := decimalAux_digits _ n

theorem ofDigits_decimalAux : ∀ (fuel n : Nat), n < fuel → ofDigits (decimalAux fuel n) = n := by
  intro fuel
  induction fuel with
  | zero => intro n h; omega
  | succ fuel ih =>
    intro n h
    simp only [decimalAux]
    split
    · rename_i hlt
      simp only [ofDigits, List.foldl_cons, List.foldl_nil, digit_toNat hlt]
      omega
    · rename_i hge
      have hrest := ih (n / 10) (by omega)
      simp only [ofDigits] at hrest ⊢
      rw [List.foldl_append, hrest, List.foldl_cons, List.foldl_nil,
        digit_toNat (Nat.mod_lt n (by decide))]
      omega

/-- `std::to_string` reads back. -/
theorem ofDigits_decimal (n : Nat) : ofDigits (decimal n) = n :=
  ofDigits_decimalAux (n + 1) n (Nat.lt_succ_self n)

theorem decimal_injective : Function.Injective decimal := fun a b h => by
  rw [← ofDigits_decimal a, h, ofDigits_decimal b]

theorem decimal_ne_nil (n : Nat) : decimal n ≠ [] := by
  simp only [decimal, decimalAux]
  split <;> simp

theorem length_decimal_le (n : Nat) : (decimal n).length ≤ n + 1 := by
  have haux : ∀ fuel n, (decimalAux fuel n).length ≤ fuel := by
    intro fuel
    induction fuel with
    | zero => intro n; exact Nat.le_refl 0
    | succ fuel ih =>
      intro n
      simp only [decimalAux]
      split
      · simp
      · have := ih (n / 10)
        simp only [List.length_append, List.length_cons, List.length_nil]
        omega
  exact haux _ _

end Bytes

/-! ## `size_t` -/

/-- A sum of two sizes, which wraps at 64 bits. -/
def addSize (a b : Nat) : Nat := (a + b) % 2 ^ 64

/-- A difference of two sizes, which wraps below zero. -/
def subSize (a b : Nat) : Nat := if b ≤ a then a - b else 2 ^ 64 - (b - a)

theorem addSize_eq {a b : Nat} (h : a + b < 2 ^ 64) : addSize a b = a + b := Nat.mod_eq_of_lt h

theorem subSize_of_le {a b : Nat} (hab : b ≤ a) : subSize a b = a - b := if_pos hab

/-! ## Runs in a list -/

/-- The run of `p` from position `a` on is `m` long when it starts with `m`
entries that satisfy `p` and the next one, if there is one, does not. -/
theorem takeWhile_drop_length {α : Type} {p : α → Bool} {l : List α} {m : Nat} :
    ∀ {a : Nat}, (∀ k, a ≤ k → k < a + m → ∃ x, l[k]? = some x ∧ p x = true) →
      (∀ x, l[a + m]? = some x → p x = false) → ((l.drop a).takeWhile p).length = m := by
  induction m with
  | zero =>
    intro a _ hend
    cases hl : l.drop a with
    | nil => rfl
    | cons x rest =>
      have hx : l[a]? = some x := by
        have := congrArg (fun t => t[0]?) hl
        simpa using this
      rw [List.takeWhile_cons, hend x hx]
      rfl
  | succ m ih =>
    intro a hrun hend
    obtain ⟨x, hx, hp⟩ := hrun a (Nat.le_refl a) (by omega)
    obtain ⟨hlt, hxa⟩ := List.getElem?_eq_some_iff.1 hx
    rw [List.drop_eq_getElem_cons hlt, hxa, List.takeWhile_cons, hp, if_pos rfl, List.length_cons]
    congr 1
    apply ih
    · intro k h1 h2
      exact hrun k (by omega) (by omega)
    · intro y hy
      exact hend y (by rw [← hy]; congr 1; omega)

/-! ## Changing one entry of a list -/

theorem map_modify {α β : Type} (l : List α) (i : Nat) (f : α → α) (g : α → β)
    (h : ∀ a, g (f a) = g a) : (l.modify i f).map g = l.map g := by
  apply List.ext_getElem?
  intro j
  rw [List.getElem?_map, List.getElem?_map, List.getElem?_modify]
  cases l[j]? with
  | none => rfl
  | some a => by_cases hij : i = j <;> simp [hij, h]

theorem flatMap_modify {α β : Type} (l : List α) (i : Nat) (f : α → α) (g : α → List β)
    (h : ∀ a, g (f a) = g a) : (l.modify i f).flatMap g = l.flatMap g := by
  rw [List.flatMap_def, List.flatMap_def, map_modify l i f g h]

theorem mem_modify {α : Type} {f : α → α} {x : α} : ∀ {l : List α} {i : Nat}, x ∈ l.modify i f →
    x ∈ l ∨ ∃ y ∈ l, x = f y := by
  intro l i h
  obtain ⟨j, hj⟩ := List.mem_iff_getElem?.1 h
  rw [List.getElem?_modify] at hj
  obtain ⟨y, hy, he⟩ := Option.map_eq_some_iff.1 hj
  split at he
  · exact .inr ⟨y, List.mem_of_getElem? hy, he.symm⟩
  · exact .inl (he ▸ List.mem_of_getElem? hy)

end VlmConvert

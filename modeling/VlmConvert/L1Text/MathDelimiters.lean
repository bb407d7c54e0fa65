import VlmConvert.Core.Bytes

/-!
# Math delimiters

A formula comes with the delimiters of its source. `strip_math_delimiters`
(`src/mapping/layout.cpp:303-338`) drops `\(` and `\)` in one pass over the text,
where `\\` is a line break and hides what stands behind it, and then peels the
wrappers `$$`, `\[` and `$` as long as one encloses the whole text.

Results:

* `stripMathDelimiters_idempotent`: the peeling ends on every text, and what it
  leaves is stripped already.
-/
namespace VlmConvert.L1.MathDelimiters

open Bytes

/-! ## The two passes -/

/-- mirrors src/mapping/layout.cpp:304-318 -/
def dropInline : Bytes → Bytes
  | [] => []
  | [b] => [b]
  | b :: c :: text =>
    if b = 0x5C ∧ c = 0x5C then b :: c :: dropInline text
    else if b = 0x5C ∧ (c = 0x28 ∨ c = 0x29) then dropInline text
    else b :: dropInline (c :: text)

/-- What stands between `left` and `right` at the ends of `out`, if none of
`barred` occurs in it. -/
def peel (left right : Bytes) (barred : List Bytes) (out : Bytes) : Option Bytes :=
  let inner := (out.drop left.length).take (out.length - (left.length + right.length))
  if left.length + right.length ≤ out.length ∧ left <+: out ∧ right <:+ out ∧
      ∀ delimiter ∈ barred, findSub delimiter inner = none then
    some inner
  else none

/-- mirrors src/mapping/layout.cpp:321-334 -/
def unwrapped (out : Bytes) : Option Bytes :=
  (peel (ascii "$$") (ascii "$$") [ascii "$$"] out).or
    ((peel (ascii "\\[") (ascii "\\]") [ascii "\\[", ascii "\\]"] out).or
      (peel (ascii "$") (ascii "$") [ascii "$"] out))

/-- The loop; `none` is one that has not ended after `fuel` tests.
mirrors src/mapping/layout.cpp:320-337 -/
def peelFrom : Nat → Bytes → Option Bytes
  | 0, _ => none
  | fuel + 1, out =>
    match unwrapped out with
    | some inner => peelFrom fuel (trim inner)
    | none => some out

/-- mirrors src/mapping/layout.cpp:303-338 -/
def stripMathDelimiters (fuel : Nat) (text : Bytes) : Option Bytes :=
  peelFrom fuel (trim (dropInline text))

/-! ## Texts without inline delimiters -/

/-- The first pass finds nothing to drop. -/
def Paired (text : Bytes) : Prop := dropInline text = text

/-- A line break hides what stands behind it. -/
theorem dropInline_break {b c : UInt8} (h : b = 0x5C ∧ c = 0x5C) (text : Bytes) :
    dropInline (b :: c :: text) = b :: c :: dropInline text :=
  if_pos h

theorem dropInline_delimiter {b c : UInt8} (h : ¬ (b = 0x5C ∧ c = 0x5C))
    (h' : b = 0x5C ∧ (c = 0x28 ∨ c = 0x29)) (text : Bytes) :
    dropInline (b :: c :: text) = dropInline text :=
  (if_neg h).trans (if_pos h')

theorem dropInline_copy {b c : UInt8} (h : ¬ (b = 0x5C ∧ c = 0x5C))
    (h' : ¬ (b = 0x5C ∧ (c = 0x28 ∨ c = 0x29))) (text : Bytes) :
    dropInline (b :: c :: text) = b :: dropInline (c :: text) :=
  (if_neg h).trans (if_neg h')

theorem length_dropInline (text : Bytes) : (dropInline text).length ≤ text.length := by
  induction text using dropInline.induct with
  | case1 => rfl
  | case2 b => rfl
  | case3 b c text h ih => rw [dropInline_break h]; simpa using ih
  | case4 b c text h h' ih =>
    rw [dropInline_delimiter h h', List.length_cons, List.length_cons]
    omega
  | case5 b c text h h' ih =>
    rw [dropInline_copy h h', List.length_cons, List.length_cons]
    omega

theorem head_dropInline {b : UInt8} (h : b ≠ 0x5C) (text : Bytes) :
    dropInline (b :: text) = b :: dropInline text := by
  cases text with
  | nil => rfl
  | cons c text => exact dropInline_copy (fun hb => h hb.1) (fun hb => h hb.1) text

theorem paired_dropInline (text : Bytes) : Paired (dropInline text) := by
  induction text using dropInline.induct with
  | case1 => rfl
  | case2 b => rfl
  | case3 b c text h ih => rw [dropInline_break h, Paired, dropInline_break h, ih]
  | case4 b c text h h' ih => rwa [dropInline_delimiter h h']
  | case5 b c text h h' ih =>
    rw [dropInline_copy h h']
    by_cases hb : b = 0x5C
    · -- The byte behind a lone backslash is copied next to it.
      have hc : c ≠ 0x5C := fun hc => h ⟨hb, hc⟩
      rw [head_dropInline hc] at ih ⊢
      rw [Paired, dropInline_copy h h', ih]
    · rw [Paired, head_dropInline hb, ih]

theorem Paired.tail {b : UInt8} {text : Bytes} (hb : b ≠ 0x5C) (h : Paired (b :: text)) :
    Paired text := by
  rw [Paired, head_dropInline hb] at h
  exact List.tail_eq_of_cons_eq h

/-- A command of another byte is copied as it is. -/
theorem Paired.command {b : UInt8} {text : Bytes} (hb : b ≠ 0x5C) (h : Paired (0x5C :: b :: text)) :
    Paired text := by
  have hbreak : ¬ ((0x5C : UInt8) = 0x5C ∧ b = 0x5C) := fun hc => hb hc.2
  by_cases hdrop : (0x5C : UInt8) = 0x5C ∧ (b = 0x28 ∨ b = 0x29)
  · rw [Paired, dropInline_delimiter hbreak hdrop] at h
    have hlength := length_dropInline text
    rw [h, List.length_cons, List.length_cons] at hlength
    omega
  · rw [Paired, dropInline_copy hbreak hdrop] at h
    exact Paired.tail hb (List.tail_eq_of_cons_eq h)

/-- What stands in front is passed over alike, whatever stands behind. -/
theorem Paired.left {text more : Bytes} (h : Paired (text ++ more)) : Paired text := by
  induction text using dropInline.induct with
  | case1 => rfl
  | case2 b => rfl
  | case3 b c text hpair ih =>
    rw [List.cons_append, List.cons_append, Paired, dropInline_break hpair] at h
    have htail := List.tail_eq_of_cons_eq (List.tail_eq_of_cons_eq h)
    rw [Paired, dropInline_break hpair, ih htail]
  | case4 b c text hpair hdrop ih =>
    rw [List.cons_append, List.cons_append, Paired, dropInline_delimiter hpair hdrop] at h
    have hlength := length_dropInline (text ++ more)
    rw [h, List.length_cons, List.length_cons] at hlength
    omega
  | case5 b c text hpair hdrop ih =>
    rw [List.cons_append, List.cons_append, Paired, dropInline_copy hpair hdrop] at h
    have htail := ih (List.tail_eq_of_cons_eq h)
    rw [Paired, dropInline_copy hpair hdrop, htail]

theorem Paired.trim {text : Bytes} (h : Paired text) : Paired (trim text) := by
  have hfront : Paired (text.dropWhile isBlank) := by
    induction text with
    | nil => exact h
    | cons b text ih =>
      rw [List.dropWhile_cons]
      split
      · rename_i hb
        have hne : b ≠ 0x5C := by
          intro he
          rw [he] at hb
          cases hb
        exact ih (h.tail hne)
      · exact h
  obtain ⟨more, hmore⟩ := List.rdropWhile_prefix isBlank (text.dropWhile isBlank)
  rw [← hmore] at hfront
  exact hfront.left

/-! ## Peeling -/

theorem peel_eq {left right : Bytes} {barred : List Bytes} {out inner : Bytes}
    (h : peel left right barred out = some inner) : out = left ++ inner ++ right := by
  simp only [peel] at h
  split at h
  · rename_i hcond
    obtain ⟨hlength, ⟨behind, hleft⟩, ⟨front, hright⟩, -⟩ := hcond
    cases h
    subst hleft
    rw [List.drop_left, List.append_assoc]
    congr 1
    have hlen : front.length + right.length = left.length + behind.length := by
      rw [← List.length_append, hright, List.length_append]
    have hbehind : behind = front.drop left.length ++ right := by
      have hdrop := congrArg (List.drop left.length) hright
      rw [List.drop_left, List.drop_append_of_le_length] at hdrop
      · exact hdrop.symm
      · rw [List.length_append] at hlength
        omega
    rw [hbehind]
    congr 1
    rw [List.take_left']
    rw [List.length_append, List.length_append, List.length_drop]
    omega
  · cases h

/-- Each wrapper is one of three, and encloses what is left. -/
theorem unwrapped_eq {out inner : Bytes} (h : unwrapped out = some inner) :
    out = ascii "$$" ++ inner ++ ascii "$$" ∨ out = ascii "\\[" ++ inner ++ ascii "\\]" ∨
      out = ascii "$" ++ inner ++ ascii "$" := by
  rw [unwrapped, Option.or_eq_some_iff, Option.or_eq_some_iff] at h
  rcases h with hdisplay | ⟨-, hbracket | ⟨-, hinline⟩⟩
  · exact .inl (peel_eq hdisplay)
  · exact .inr (.inl (peel_eq hbracket))
  · exact .inr (.inr (peel_eq hinline))

theorem length_unwrapped {out inner : Bytes} (h : unwrapped out = some inner) :
    inner.length < out.length := by
  rcases unwrapped_eq h with he | he | he <;>
  · rw [he, List.length_append, List.length_append]
    have hpos : ∀ s : Bytes, s ≠ [] → 0 < s.length := fun s hs => List.length_pos_of_ne_nil hs
    have hopen := hpos (ascii "$$") (by decide)
    have hbracket := hpos (ascii "\\[") (by decide)
    have hinline := hpos (ascii "$") (by decide)
    omega

theorem Paired.unwrapped {out inner : Bytes} (hout : Paired out)
    (h : unwrapped out = some inner) : Paired inner := by
  rcases unwrapped_eq h with he | he | he
  · rw [he] at hout
    exact (Paired.tail (by decide) (Paired.tail (by decide) hout.left))
  · rw [he] at hout
    exact Paired.command (by decide) hout.left
  · rw [he] at hout
    exact Paired.tail (by decide) hout.left

/-! ## Stripped texts -/

/-- Nothing is left to strip. -/
structure Bare (text : Bytes) : Prop where
  paired : Paired text
  trimmed : trim text = text
  unwrapped : unwrapped text = none

/-- Each turn of the loop leaves a shorter text. -/
theorem peelFrom_bare {out : Bytes} (hout : Paired out) (htrim : trim out = out) :
    ∃ result, Bare result ∧ ∀ fuel, out.length < fuel → peelFrom fuel out = some result := by
  induction hn : out.length using Nat.strongRecOn generalizing out with
  | ind n ih =>
    cases hinner : unwrapped out with
    | none =>
      refine ⟨out, ⟨hout, htrim, hinner⟩, fun fuel hfuel => ?_⟩
      obtain ⟨fuel, rfl⟩ := Nat.exists_eq_succ_of_ne_zero (by omega : fuel ≠ 0)
      rw [peelFrom, hinner]
    | some inner =>
      have hshort := length_unwrapped hinner
      have htrimmed := length_trim_le inner
      obtain ⟨result, hbare, hends⟩ := ih (trim inner).length (by omega)
        (hout.unwrapped hinner).trim (trim_trim inner) rfl
      refine ⟨result, hbare, fun fuel hfuel => ?_⟩
      obtain ⟨fuel, rfl⟩ := Nat.exists_eq_succ_of_ne_zero (by omega : fuel ≠ 0)
      rw [peelFrom, hinner]
      exact hends fuel (by omega)

theorem stripMathDelimiters_bare {fuel : Nat} {text : Bytes} (h : Bare text) :
    stripMathDelimiters (fuel + 1) text = some text := by
  rw [stripMathDelimiters, h.paired, h.trimmed, peelFrom, h.unwrapped]

theorem stripMathDelimiters_ends (text : Bytes) :
    ∃ result, Bare result ∧
      ∀ fuel, text.length < fuel → stripMathDelimiters fuel text = some result := by
  obtain ⟨result, hbare, hends⟩ := peelFrom_bare (paired_dropInline text).trim (trim_trim _)
  refine ⟨result, hbare, fun fuel hfuel => hends fuel ?_⟩
  calc (trim (dropInline text)).length ≤ (dropInline text).length := length_trim_le _
    _ ≤ text.length := length_dropInline text
    _ < fuel := hfuel

/-- **Stripped once.** The loop ends on every text, and a second pass finds
nothing to take off. -/
theorem stripMathDelimiters_idempotent (text : Bytes) :
    ∃ result, (∀ fuel, text.length < fuel → stripMathDelimiters fuel text = some result) ∧
      ∀ fuel, 0 < fuel → stripMathDelimiters fuel result = some result := by
  obtain ⟨result, hbare, hends⟩ := stripMathDelimiters_ends text
  refine ⟨result, hends, fun fuel hfuel => ?_⟩
  obtain ⟨fuel, rfl⟩ := Nat.exists_eq_succ_of_ne_zero hfuel.ne'
  exact stripMathDelimiters_bare hbare

end VlmConvert.L1.MathDelimiters

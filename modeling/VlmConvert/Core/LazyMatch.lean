import Mathlib.Data.List.Basic

/-!
# Lazy matches

The matches of `opening (.*?) closing` in a text, from left to right and
without overlap: each match starts as far left as one can, and its body is as
short as it can be. A token is a language of texts that carry a value, with a
reader that takes one off the front of a text.

`finditer` finds the matches in one pass. It gives up at the first opening that
no closing follows: a closing behind a later opening would follow this one too.

Results:

* `Finditer.unique`: a text has one list of matches.
* `finditer_spec`: the pass finds it.
-/
namespace VlmConvert

/-- Texts that carry a value; each is read off the front of a text in one way. -/
structure Token (α β : Type) where
  lang : β → List α → Prop
  read : List α → Option (β × List α)
  read_iff : ∀ l b rest, read l = some (b, rest) ↔ ∃ s, lang b s ∧ l = s ++ rest
  ne_nil : ∀ b s, lang b s → s ≠ []

/-- No token starts inside of another one. -/
def Token.Apart {α β : Type} (token : Token α β) : Prop :=
  ∀ b s, token.lang b s → ∀ front back rest, s = front ++ back → front ≠ [] → back ≠ [] →
    token.read (back ++ rest) = none

/-- A match: what its tokens say, and what stands between them. -/
structure Found (α β γ : Type) where
  opening : β
  body : List α
  closing : γ
  deriving DecidableEq, Repr

namespace LazyMatch

section Matches
variable {α β γ : Type} (opening : Token α β) (closing : Token α γ)

/-- The text starts with a match, and `rest` is behind it. -/
def MatchAt (l : List α) (f : Found α β γ) (rest : List α) : Prop :=
  ∃ s t, opening.lang f.opening s ∧ closing.lang f.closing t ∧ l = s ++ (f.body ++ (t ++ rest))

/-- No match starts in `before`, in front of `l`. -/
def NoneBefore (before l : List α) : Prop :=
  ∀ front back, before = front ++ back → back ≠ [] →
    ∀ f rest, ¬ MatchAt opening closing (back ++ l) f rest

/-- The matches of a text. -/
inductive Finditer : List α → List (Found α β γ) → Prop
  | stop {l : List α} : NoneBefore opening closing l [] → Finditer l []
  | next {before l rest : List α} {f : Found α β γ} {fs : List (Found α β γ)} :
      NoneBefore opening closing before l → MatchAt opening closing l f rest →
      (∀ f' rest', MatchAt opening closing l f' rest' → f.body.length ≤ f'.body.length) →
      Finditer rest fs → Finditer (before ++ l) (f :: fs)

/-! ## One pass -/

/-- What stands in front of the first closing, its value, and the rest. -/
def firstClosing : List α → Option (List α × γ × List α)
  | [] => none
  | a :: l =>
    match closing.read (a :: l) with
    | some (c, rest) => some ([], c, rest)
    | none => (firstClosing l).map fun r => (a :: r.1, r.2)

def finditer : Nat → List α → List (Found α β γ)
  | 0, _ => []
  | _ + 1, [] => []
  | n + 1, a :: l =>
    match opening.read (a :: l) with
    | none => finditer n l
    | some (o, inner) =>
      match firstClosing closing inner with
      | none => []
      | some (body, c, rest) => ⟨o, body, c⟩ :: finditer n rest

end Matches

section Reading
variable {α β : Type} (token : Token α β)

theorem read_nil : token.read [] = none := by
  cases hread : token.read [] with
  | none => rfl
  | some r =>
    obtain ⟨s, hs, hnil⟩ := (token.read_iff [] r.1 r.2).1 hread
    exact absurd (List.append_eq_nil_iff.1 hnil.symm).1 (token.ne_nil _ _ hs)

theorem read_lang {b : β} {s : List α} (h : token.lang b s) (rest : List α) :
    token.read (s ++ rest) = some (b, rest) := (token.read_iff _ _ _).2 ⟨s, h, rfl⟩

theorem read_length {l rest : List α} {b : β} (h : token.read l = some (b, rest)) :
    rest.length < l.length := by
  obtain ⟨s, hs, rfl⟩ := (token.read_iff _ _ _).1 h
  have hpos := List.length_pos_of_ne_nil (token.ne_nil _ _ hs)
  rw [List.length_append]
  omega

end Reading

section Pass
variable {α β γ : Type} {opening : Token α β} {closing : Token α γ}

theorem firstClosing_some {l body rest : List α} {c : γ}
    (h : firstClosing closing l = some (body, c, rest)) :
    ∃ t, closing.lang c t ∧ l = body ++ (t ++ rest) ∧
      ∀ front back, body = front ++ back → back ≠ [] →
        closing.read (back ++ (t ++ rest)) = none := by
  induction l generalizing body with
  | nil => cases h
  | cons a l ih =>
    rw [firstClosing] at h
    cases hread : closing.read (a :: l) with
    | some r =>
      rw [hread] at h
      cases h
      obtain ⟨t, ht, hl⟩ := (closing.read_iff _ _ _).1 hread
      refine ⟨t, ht, hl, fun front back hbody hback => ?_⟩
      exact absurd (List.append_eq_nil_iff.1 hbody.symm).2 hback
    | none =>
      rw [hread] at h
      obtain ⟨⟨body', c', rest'⟩, hfirst, he⟩ := Option.map_eq_some_iff.1 h
      cases he
      obtain ⟨t, ht, rfl, hnone⟩ := ih hfirst
      refine ⟨t, ht, rfl, fun front back hbody hback => ?_⟩
      cases front with
      | nil =>
        rw [List.nil_append] at hbody
        rw [← hbody]
        exact hread
      | cons b front =>
        obtain ⟨rfl, hbody'⟩ := List.cons.inj hbody
        exact hnone front back hbody' hback

theorem firstClosing_none {l : List α} (h : firstClosing closing l = none) :
    ∀ front back, l = front ++ back → closing.read back = none := by
  induction l with
  | nil =>
    intro front back hl
    rw [(List.append_eq_nil_iff.1 hl.symm).2]
    exact read_nil closing
  | cons a l ih =>
    intro front back hl
    rw [firstClosing] at h
    cases hread : closing.read (a :: l) with
    | some r =>
      rw [hread] at h
      cases h
    | none =>
      rw [hread, Option.map_eq_none_iff] at h
      cases front with
      | nil =>
        rw [List.nil_append] at hl
        rw [← hl]
        exact hread
      | cons b front =>
        obtain ⟨rfl, hl'⟩ := List.cons.inj hl
        exact ih h front back hl'

/-- A match starts where its opening is read, and ends at a closing behind it. -/
theorem MatchAt.read {l rest : List α} {f : Found α β γ} (h : MatchAt opening closing l f rest) :
    ∃ inner, opening.read l = some (f.opening, inner) ∧
      ∃ back, inner = f.body ++ back ∧ closing.read back = some (f.closing, rest) := by
  obtain ⟨s, t, hs, ht, rfl⟩ := h
  exact ⟨_, read_lang opening hs _, _, rfl, read_lang closing ht rest⟩

/-- No shorter body than the one in front of the first closing. -/
theorem firstClosing_least {inner body back rest rest' : List α} {c c' : γ} {body' : List α}
    (h : firstClosing closing inner = some (body, c, rest)) (hinner : inner = body' ++ back)
    (hread : closing.read back = some (c', rest')) : body.length ≤ body'.length := by
  obtain ⟨t, -, rfl, hnone⟩ := firstClosing_some h
  by_contra hshort
  have hfront : body.take body'.length = body' := by
    have htake := congrArg (List.take body'.length) hinner
    rw [List.take_left, List.take_append_of_le_length (by omega)] at htake
    exact htake
  have hback : back = body.drop body'.length ++ (t ++ rest) := by
    have hdrop := congrArg (List.drop body'.length) hinner
    rw [List.drop_left, List.drop_append_of_le_length (by omega)] at hdrop
    exact hdrop.symm
  have hmiss := hnone body' (body.drop body'.length)
    (by conv_lhs => rw [← List.take_append_drop body'.length body, hfront])
    (by rw [← List.length_pos_iff_ne_nil, List.length_drop]; omega)
  rw [← hback, hread] at hmiss
  cases hmiss

theorem not_match_of_read {l : List α} (h : opening.read l = none) (f : Found α β γ)
    (rest : List α) :
    ¬ MatchAt opening closing l f rest := by
  intro hmatch
  obtain ⟨inner, hread, -⟩ := hmatch.read
  rw [h] at hread
  cases hread

/-- The closing of a match is read behind its opening. -/
theorem MatchAt.closing_behind {l rest : List α} {f : Found α β γ}
    (h : MatchAt opening closing l f rest) :
    ∃ front back, l = front ++ back ∧ closing.read back = some (f.closing, rest) := by
  obtain ⟨s, t, -, ht, rfl⟩ := h
  exact ⟨s ++ f.body, t ++ rest, by rw [List.append_assoc], read_lang closing ht rest⟩

/-- A closing behind a later opening follows this one too. -/
theorem noneBefore_of_firstClosing (hapart : opening.Apart) {l inner : List α} {o : β}
    (hread : opening.read l = some (o, inner)) (h : firstClosing closing inner = none) :
    NoneBefore opening closing l [] := by
  intro front back hl _ f rest hmatch
  rw [List.append_nil] at hmatch
  obtain ⟨s, hs, hinner⟩ := (opening.read_iff _ _ _).1 hread
  have hmiss := firstClosing_none h
  rcases List.append_eq_append_iff.1 (hl.symm.trans hinner) with
    ⟨middle, hfront, hback⟩ | ⟨middle, hfront, hback⟩
  · -- The match starts in the opening: at its front, or nowhere.
    cases front with
    | nil =>
      obtain ⟨inner', hread', back', hinner', hclosing⟩ := hmatch.read
      rw [List.nil_append] at hl
      rw [← hl, hread] at hread'
      cases hread'
      rw [hmiss f.body back' hinner'] at hclosing
      cases hclosing
    | cons a front =>
      cases middle with
      | nil =>
        obtain ⟨front', back', hback', hclosing⟩ := hmatch.closing_behind
        rw [List.nil_append] at hback
        rw [hmiss front' back' (hback.symm.trans hback')] at hclosing
        cases hclosing
      | cons b middle =>
        have hnone := hapart o s hs (a :: front) (b :: middle) inner hfront (by simp) (by simp)
        rw [← hback] at hnone
        exact not_match_of_read hnone f rest hmatch
  · obtain ⟨front', back', hback', hclosing⟩ := hmatch.closing_behind
    rw [hmiss (middle ++ front') back' (by rw [hback, hback', List.append_assoc])] at hclosing
    cases hclosing

/-- One more byte without a match in front. -/
theorem Finditer.cons {a : α} {l : List α} {fs : List (Found α β γ)}
    (hread : opening.read (a :: l) = none) (h : Finditer opening closing l fs) :
    Finditer opening closing (a :: l) fs := by
  cases h with
  | stop hnone =>
    refine .stop fun front back hl hback f rest hmatch => ?_
    cases front with
    | nil =>
      rw [List.nil_append] at hl
      rw [List.append_nil, ← hl] at hmatch
      exact not_match_of_read hread f rest hmatch
    | cons b front =>
      obtain ⟨-, hl'⟩ := List.cons.inj hl
      exact hnone front back hl' hback f rest hmatch
  | @next before l rest f fs hnone hmatch hleast hrest =>
    rw [← List.cons_append]
    refine .next ?_ hmatch hleast hrest
    intro front back hl hback f' rest' hmatch'
    cases front with
    | nil =>
      rw [List.nil_append] at hl
      rw [← hl, List.cons_append] at hmatch'
      exact not_match_of_read hread f' rest' hmatch'
    | cons b front =>
      obtain ⟨-, hl'⟩ := List.cons.inj hl
      exact hnone front back hl' hback f' rest' hmatch'

/-- **One pass.** The pass finds the matches of the text. -/
theorem finditer_spec (hapart : opening.Apart) : ∀ {n : Nat} {l : List α}, l.length ≤ n →
    Finditer opening closing l (finditer opening closing n l) := by
  have hnil : Finditer opening closing [] [] := by
    refine .stop fun front back hl hback => ?_
    exact absurd (List.append_eq_nil_iff.1 hl.symm).2 hback
  intro n
  induction n with
  | zero =>
    intro l hn
    rw [List.length_eq_zero_iff.1 (Nat.le_zero.1 hn)]
    exact hnil
  | succ n ih =>
    intro l hn
    cases l with
    | nil => exact hnil
    | cons a l =>
      rw [List.length_cons] at hn
      rw [finditer]
      cases hread : opening.read (a :: l) with
      | none => exact (ih (by omega)).cons hread
      | some r =>
        obtain ⟨o, inner⟩ := r
        dsimp only
        cases hfirst : firstClosing closing inner with
        | none => exact .stop (noneBefore_of_firstClosing hapart hread hfirst)
        | some r =>
          obtain ⟨body, c, rest⟩ := r
          obtain ⟨s, hs, hl⟩ := (opening.read_iff _ _ _).1 hread
          obtain ⟨t, ht, hinner, -⟩ := firstClosing_some hfirst
          have hlength := read_length opening hread
          have hshort : rest.length ≤ n := by
            have := congrArg List.length hinner
            rw [List.length_append, List.length_append] at this
            rw [List.length_cons] at hlength
            omega
          rw [← List.nil_append (a :: l)]
          refine .next ?_ ⟨s, t, hs, ht, by rw [hl, hinner]⟩ ?_ (ih hshort)
          · intro front back hl' hback
            exact absurd (List.append_eq_nil_iff.1 hl'.symm).2 hback
          · intro f' rest' hmatch
            obtain ⟨inner', hread', back', hinner', hclosing⟩ := hmatch.read
            rw [hread] at hread'
            cases hread'
            exact firstClosing_least hfirst hinner' hclosing

/-- Two matches that start together and are both the shortest are the same. -/
theorem match_unique {l rest rest' : List α} {f f' : Found α β γ}
    (h : MatchAt opening closing l f rest) (h' : MatchAt opening closing l f' rest')
    (hlength : f.body.length = f'.body.length) : f = f' ∧ rest = rest' := by
  obtain ⟨inner, hread, back, hinner, hclosing⟩ := h.read
  obtain ⟨inner', hread', back', hinner', hclosing'⟩ := h'.read
  rw [hread] at hread'
  obtain ⟨hopening, rfl⟩ := Prod.mk.inj (Option.some.inj hread')
  obtain ⟨hbody, rfl⟩ := List.append_inj (hinner.symm.trans hinner') hlength
  rw [hclosing] at hclosing'
  obtain ⟨hclosed, rfl⟩ := Prod.mk.inj (Option.some.inj hclosing')
  obtain ⟨o, body, c⟩ := f
  obtain ⟨o', body', c'⟩ := f'
  dsimp only at hopening hbody hclosed
  rw [hopening, hbody, hclosed]
  exact ⟨rfl, rfl⟩

theorem MatchAt.ne_nil {l rest : List α} {f : Found α β γ} (h : MatchAt opening closing l f rest) :
    l ≠ [] := by
  obtain ⟨s, t, hs, -, rfl⟩ := h
  intro hnil
  exact opening.ne_nil _ _ hs (List.append_eq_nil_iff.1 hnil).1

/-- Two matches in front of which none starts start together. -/
theorem start_unique {before before' l l' rest rest' : List α} {f f' : Found α β γ}
    (heq : before ++ l = before' ++ l') (hnone : NoneBefore opening closing before l)
    (hnone' : NoneBefore opening closing before' l') (h : MatchAt opening closing l f rest)
    (h' : MatchAt opening closing l' f' rest') : before = before' ∧ l = l' := by
  rcases List.append_eq_append_iff.1 heq with ⟨middle, hbefore, hl⟩ | ⟨middle, hbefore, hl⟩
  · cases middle with
    | nil => exact ⟨by rw [hbefore, List.append_nil], hl⟩
    | cons a middle =>
      rw [hl] at h
      exact absurd h (hnone' before (a :: middle) hbefore (by simp) f rest)
  · cases middle with
    | nil => exact ⟨by rw [hbefore, List.append_nil], hl.symm⟩
    | cons a middle =>
      rw [hl] at h'
      exact absurd h' (hnone before' (a :: middle) hbefore (by simp) f' rest')

/-- **One list.** A text has one list of matches. -/
theorem Finditer.unique {l : List α} {fs fs' : List (Found α β γ)}
    (h : Finditer opening closing l fs) (h' : Finditer opening closing l fs') : fs = fs' := by
  induction h generalizing fs' with
  | stop hnone =>
    cases h' with
    | stop => rfl
    | @next before l rest f fs hnone' hmatch =>
      have hno := hnone before l rfl hmatch.ne_nil f rest
      rw [List.append_nil] at hno
      exact absurd hmatch hno
  | @next before l rest f fs hnone hmatch hleast hrest ih =>
    generalize hm : before ++ l = m at h'
    cases h' with
    | stop hnone' =>
      have hno := hnone' before l hm.symm hmatch.ne_nil f rest
      rw [List.append_nil] at hno
      exact absurd hmatch hno
    | @next before' l' rest' f' fs' hnone' hmatch' hleast' hrest' =>
      obtain ⟨-, rfl⟩ := start_unique hm hnone hnone' hmatch hmatch'
      have hlength := Nat.le_antisymm (hleast f' rest' hmatch') (hleast' f rest hmatch)
      obtain ⟨rfl, rfl⟩ := match_unique hmatch hmatch' hlength
      rw [ih hrest']

end Pass

end LazyMatch

end VlmConvert

import Mathlib

/-!
# Labelled transition systems

States, labels, reachability and the invariant rule. A component with
interleaved parties is an `LTS`; a safety theorem about it is an
`Inductive` predicate (`LTS.Inductive.reachable`), and a concrete run of a
system given by a step function is evaluated with `LTS.exec`
(`LTS.reachable_exec`).

Termination is a measure: `exec_length_le` bounds the length of a run by the
measure of its first state and what its steps may add, and
`Reachable.leads_to` reaches a goal if some step lowers the measure until then.

`mem_set_cases`, `sum_map_set`: what replacing one entry of a list does
to its members and to a sum over it; every accounting invariant of a
system with indexed parts (lease objects, workers, streams) is an instance.
-/
namespace VlmConvert

structure LTS (S L : Type) where
  init : S → Prop
  step : S → L → S → Prop

namespace LTS

variable {S L : Type}

/-- The states some run from an initial state ends in. -/
inductive Reachable (T : LTS S L) : S → Prop
  | init {s : S} : T.init s → Reachable T s
  | step {s s' : S} {l : L} : Reachable T s → T.step s l s' → Reachable T s'

/-- `P` holds initially and every step keeps it. -/
structure Inductive (T : LTS S L) (P : S → Prop) : Prop where
  init : ∀ s, T.init s → P s
  step : ∀ s l s', P s → T.step s l s' → P s'

/-- The invariant rule. -/
theorem Inductive.reachable {T : LTS S L} {P : S → Prop} (h : T.Inductive P) (s : S)
    (hr : T.Reachable s) : P s := by
  induction hr with
  | init hi => exact h.init _ hi
  | step _ hst ih => exact h.step _ _ _ ih hst

/-- The states some run from `s` ends in. -/
inductive Leads (T : LTS S L) (s : S) : S → Prop
  | refl : Leads T s s
  | step {s' s'' : S} {l : L} : Leads T s s' → T.step s' l s'' → Leads T s s''

theorem Reachable.leads {T : LTS S L} {s s' : S} (hr : T.Reachable s) (h : T.Leads s s') :
    T.Reachable s' := by
  induction h with
  | refl => exact hr
  | step _ hst ih => exact ih.step hst

/-- What every step from a reachable state keeps, stays. -/
theorem Leads.keeps {T : LTS S L} {P : S → Prop} {s s' : S} (h : T.Leads s s') (hr : T.Reachable s)
    (hstep : ∀ s l s', T.Reachable s → P s → T.step s l s' → P s') (hp : P s) : P s' := by
  induction h with
  | refl => exact hp
  | step hrun hst ih => exact hstep _ _ _ (hr.leads hrun) ih hst

theorem Leads.trans {T : LTS S L} {s s' s'' : S} (h : T.Leads s s') (h' : T.Leads s' s'') :
    T.Leads s s'' := by
  induction h' with
  | refl => exact h
  | step _ hst ih => exact ih.step hst

/-- **The progress rule.** A goal is reached if, until it holds, some step
lowers the measure. -/
theorem Reachable.leads_to {T : LTS S L} {goal : S → Prop} (μ : S → Nat)
    (h : ∀ s, T.Reachable s → ¬goal s → ∃ l s', T.step s l s' ∧ μ s' < μ s) :
    ∀ {s : S}, T.Reachable s → ∃ s', T.Leads s s' ∧ goal s' := by
  intro s
  induction hμ : μ s using Nat.strong_induction_on generalizing s with
  | _ n ih =>
    intro hr
    by_cases hgoal : goal s
    · exact ⟨s, .refl, hgoal⟩
    · obtain ⟨l, s₁, hst, hlt⟩ := h s hr hgoal
      obtain ⟨s', hrun, hgoal'⟩ := ih (μ s₁) (hμ ▸ hlt) rfl (hr.step hst)
      exact ⟨s', (Leads.refl.step hst).trans hrun, hgoal'⟩

/-- The system of a partial step function. -/
def ofFn (init : S → Prop) (f : S → L → Option S) : LTS S L where
  init := init
  step s l s' := f s l = some s'

/-- Running a list of labels through a partial step function. -/
def exec (f : S → L → Option S) (s : S) (ls : List L) : Option S := ls.foldlM f s

theorem reachable_exec {init : S → Prop} {f : S → L → Option S} {ls : List L} {s s' : S}
    (hr : (ofFn init f).Reachable s) (h : exec f s ls = some s') : (ofFn init f).Reachable s' := by
  induction ls generalizing s with
  | nil => simp only [exec, List.foldlM_nil, Option.pure_def, Option.some.injEq] at h; exact h ▸ hr
  | cons l ls ih =>
    simp only [exec, List.foldlM_cons, Option.bind_eq_bind, Option.bind_eq_some_iff] at h
    obtain ⟨s₁, h₁, h₂⟩ := h
    exact ih (hr.step h₁) h₂

/-- What `count` says of each step of a run, summed up. -/
def tally (f : S → L → Option S) (count : S → L → Nat) : S → List L → Nat
  | _, [] => 0
  | s, l :: ls => count s l + ((f s l).map fun s' => tally f count s' ls).getD 0

theorem tally_cons {f : S → L → Option S} (count : S → L → Nat) {s s' : S} {l : L} (ls : List L)
    (h : f s l = some s') : tally f count s (l :: ls) = count s l + tally f count s' ls := by
  rw [tally, h]
  rfl

theorem exec_cons {f : S → L → Option S} {s s' : S} {l : L} {ls : List L}
    (h : exec f s (l :: ls) = some s') :
    ∃ s₁, f s l = some s₁ ∧ exec f s₁ ls = some s' := by
  simpa only [exec, List.foldlM_cons, Option.bind_eq_bind, Option.bind_eq_some_iff] using h

/-- **The length of a run.** Each step lowers the measure, but for what it may
add. -/
theorem exec_length_le {f : S → L → Option S} (μ : S → Nat) (adds : S → L → Nat)
    (hstep : ∀ s l s', f s l = some s' → μ s' + 1 ≤ μ s + adds s l) {ls : List L} :
    ∀ {s s' : S}, exec f s ls = some s' → ls.length + μ s' ≤ μ s + tally f adds s ls := by
  induction ls with
  | nil =>
    intro s s' h
    cases h
    simp [tally]
  | cons l ls ih =>
    intro s s' h
    obtain ⟨s₁, h₁, h⟩ := exec_cons h
    have hrest := ih h
    have hfirst := hstep s l s₁ h₁
    rw [tally_cons adds ls h₁, List.length_cons]
    omega

end LTS

/-! ## One entry of a list replaced -/

theorem mem_set_cases {α : Type} {l : List α} {i : Nat} {a x : α} (h : x ∈ l.set i a) :
    x ∈ l ∨ x = a := List.mem_or_eq_of_mem_set h

/-- Replacing entry `i` moves a sum over the list by the entry's own change. -/
theorem sum_map_set {α : Type} (f : α → Nat) :
    ∀ (l : List α) (i : Nat) (a x : α), l[i]? = some a →
      ((l.set i x).map f).sum + f a = (l.map f).sum + f x
  | [], _, _, _, h => by simp at h
  | b :: l, 0, a, x, h => by
    simp only [List.getElem?_cons_zero, Option.some.injEq] at h; subst h
    simp only [List.set_cons_zero, List.map_cons, List.sum_cons]; omega
  | b :: l, i + 1, a, x, h => by
    simp only [List.getElem?_cons_succ] at h
    have := sum_map_set f l i a x h
    simp only [List.set_cons_succ, List.map_cons, List.sum_cons]; omega

/-- One entry is at most the sum. -/
theorem le_sum_map {α : Type} (f : α → Nat) {l : List α} {a : α} (h : a ∈ l) :
    f a ≤ (l.map f).sum :=
  List.single_le_sum (by simp) _ (List.mem_map_of_mem h)

/-- A positive sum has a positive entry. -/
theorem exists_pos_of_sum_pos {α : Type} (f : α → Nat) :
    ∀ {l : List α}, 0 < (l.map f).sum → ∃ a ∈ l, 0 < f a
  | [], h => by simp at h
  | b :: l, h => by
    simp only [List.map_cons, List.sum_cons] at h
    by_cases hb : 0 < f b
    · exact ⟨b, by simp, hb⟩
    · obtain ⟨a, ha, hp⟩ := exists_pos_of_sum_pos f (l := l) (by omega)
      exact ⟨a, by simp [ha], hp⟩

end VlmConvert

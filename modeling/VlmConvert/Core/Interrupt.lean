import Mathlib

/-!
# Programs an exception may cut short

A program changes a state in steps and may be stopped by an exception at any of
its *points*; what it did to the state stays done. The points are counted: a
program runs with the number of points it may still pass, or with none to stop
it.

`Meets m Q E s` is total correctness with two postconditions: left alone,
`m` returns from `s` in a state that meets `Q`; an exception stops it in a
state that meets `E`, or comes too late to change anything. `Keeps J E m` says
so of an invariant `J`. The rules of both follow the shape of a program.
-/
namespace VlmConvert

/-- Why a program does not return. -/
inductive Stop
  | thrown | exhausted
  deriving DecidableEq, Repr

/-- A program over the states `σ`. Beside the state stands the number of points
the program may pass before an exception, `none`: no exception comes. -/
abbrev Interruptible (σ α : Type) := EStateM Stop (Option Nat × σ) α

namespace Interruptible

variable {σ α β : Type}

/-- A place where an exception may come. -/
def point : Interruptible σ Unit
  | (some 0, s) => .error .thrown (some 0, s)
  | (some (k + 1), s) => .ok () (some k, s)
  | (none, s) => .ok () (none, s)

/-- The end of a recursion's fuel. -/
def exhausted : Interruptible σ α := fun s => .error .exhausted s

def state : Interruptible σ σ := fun s => .ok s.2 s

def update (f : σ → σ) : Interruptible σ Unit := fun s => .ok () (s.1, f s.2)

/-- Left alone, the program returns as `Q` says; an exception stops it as `E`
says, or comes after its last point. -/
def Meets (m : Interruptible σ α) (Q : α → σ → Prop) (E : σ → Prop) (s : σ) : Prop :=
  ∃ a s', m (none, s) = .ok a (none, s') ∧ Q a s' ∧ ∀ k,
    (∃ k', m (some k, s) = .ok a (some k', s')) ∨
      ∃ k' s'', m (some k, s) = .error .thrown (some k', s'') ∧ E s''

section Rules
variable {m : Interruptible σ α} {Q : α → σ → Prop} {E : σ → Prop} {s : σ}

theorem meets_pure {a : α} (h : Q a s) : Meets (pure a) Q E s :=
  ⟨a, s, rfl, h, fun k => Or.inl ⟨k, rfl⟩⟩

theorem meets_state {Q : σ → σ → Prop} (h : Q s s) : Meets state Q E s :=
  ⟨s, s, rfl, h, fun k => Or.inl ⟨k, rfl⟩⟩

theorem meets_update {f : σ → σ} {Q : Unit → σ → Prop} (h : Q () (f s)) : Meets (update f) Q E s :=
  ⟨(), f s, rfl, h, fun k => Or.inl ⟨k, rfl⟩⟩

theorem meets_point {Q : Unit → σ → Prop} (h : Q () s) (he : E s) : Meets point Q E s := by
  refine ⟨(), s, rfl, h, fun k => ?_⟩
  cases k with
  | zero => exact Or.inr ⟨0, s, rfl, he⟩
  | succ k => exact Or.inl ⟨k, rfl⟩

theorem Meets.mono {Q' : α → σ → Prop} (h : Meets m Q E s) (hQ : ∀ a s', Q a s' → Q' a s') :
    Meets m Q' E s := by
  obtain ⟨a, s', hrun, hq, hcut⟩ := h
  exact ⟨a, s', hrun, hQ a s' hq, hcut⟩

theorem bind_ok {f : α → Interruptible σ β} {c c' : Option Nat × σ} {a : α} (h : m c = .ok a c') :
    (m >>= f) c = f a c' := by
  simp only [Bind.bind, EStateM.bind, h]

theorem bind_error {f : α → Interruptible σ β} {c c' : Option Nat × σ} {e : Stop}
    (h : m c = .error e c') :
    (m >>= f) c = .error e c' := by
  simp only [Bind.bind, EStateM.bind, h]

theorem Meets.bind {f : α → Interruptible σ β} {R : β → σ → Prop} (h : Meets m Q E s)
    (hf : ∀ a s', Q a s' → Meets (f a) R E s') : Meets (m >>= f) R E s := by
  obtain ⟨a, s', hrun, hq, hcut⟩ := h
  obtain ⟨b, t, hrun', hr, hcut'⟩ := hf a s' hq
  refine ⟨b, t, (bind_ok hrun).trans hrun', hr, fun k => ?_⟩
  rcases hcut k with ⟨k', hk⟩ | ⟨k', u, hk, he⟩
  · rw [bind_ok hk]
    exact hcut' k'
  · exact Or.inr ⟨k', u, bind_error hk, he⟩

end Rules

/-! ## Invariants -/

/-- The program keeps `J`, and stops in states that meet `E`. -/
def Keeps (J E : σ → Prop) (m : Interruptible σ α) : Prop := ∀ s, J s → Meets m (fun _ => J) E s

section Invariants
variable {J E : σ → Prop}

theorem keeps_pure (a : α) : Keeps J E (pure a) := fun _ hs => meets_pure hs

theorem Keeps.bind {m : Interruptible σ α} {f : α → Interruptible σ β} (h : Keeps J E m)
    (hf : ∀ a, Keeps J E (f a)) : Keeps J E (m >>= f) :=
  fun s hs => (h s hs).bind fun a s' hs' => hf a s' hs'

theorem Keeps.map {m : Interruptible σ α} (h : Keeps J E m) (f : α → β) : Keeps J E (f <$> m) := by
  have hmap : f <$> m = m >>= fun a => pure (f a) := by
    funext c
    simp only [Functor.map, EStateM.map, Bind.bind, EStateM.bind, Pure.pure, EStateM.pure]
  rw [hmap]
  exact h.bind fun a => keeps_pure (f a)

theorem keeps_point (h : ∀ s, J s → E s) : Keeps J E point := fun s hs => meets_point hs (h s hs)

theorem keeps_state : Keeps J E state := fun _ hs => meets_state hs

theorem keeps_update {f : σ → σ} (h : ∀ s, J s → J (f s)) : Keeps J E (update f) :=
  fun s hs => meets_update (h s hs)

/-- The rule of a loop. -/
theorem keeps_foldlM {f : β → α → Interruptible σ β} (l : List α)
    (hf : ∀ b, ∀ a ∈ l, Keeps J E (f b a)) : ∀ b, Keeps J E (l.foldlM f b) := by
  induction l with
  | nil => exact fun b => keeps_pure b
  | cons a l ih =>
    intro b
    rw [List.foldlM_cons]
    refine (hf b a List.mem_cons_self).bind fun b' => ?_
    exact ih (fun b a ha => hf b a (List.mem_cons_of_mem _ ha)) b'

end Invariants

/-! ## What a run shows -/

section Run
variable {m : Interruptible σ α} {Q : α → σ → Prop} {E : σ → Prop} {s : σ}

/-- A run that returns returns what the program returns when left alone. -/
theorem Meets.returned (h : Meets m Q E s) {fuse fuse' : Option Nat} {a : α} {s' : σ}
    (hrun : m (fuse, s) = .ok a (fuse', s')) : m (none, s) = .ok a (none, s') ∧ Q a s' := by
  obtain ⟨b, t, halone, hq, hcut⟩ := h
  have heq : a = b ∧ s' = t := by
    cases fuse with
    | none =>
      rw [halone] at hrun
      cases hrun
      exact ⟨rfl, rfl⟩
    | some k =>
      rcases hcut k with ⟨k', hk⟩ | ⟨k', u, hk, -⟩
      · rw [hk] at hrun
        cases hrun
        exact ⟨rfl, rfl⟩
      · rw [hk] at hrun
        cases hrun
  obtain ⟨rfl, rfl⟩ := heq
  exact ⟨halone, hq⟩

/-- A run that does not return was stopped by an exception. -/
theorem Meets.stopped (h : Meets m Q E s) {fuse fuse' : Option Nat} {e : Stop} {s' : σ}
    (hrun : m (fuse, s) = .error e (fuse', s')) : e = .thrown ∧ E s' := by
  obtain ⟨b, t, halone, -, hcut⟩ := h
  cases fuse with
  | none =>
    rw [halone] at hrun
    cases hrun
  | some k =>
    rcases hcut k with ⟨k', hk⟩ | ⟨k', u, hk, he⟩
    · rw [hk] at hrun
      cases hrun
    · rw [hk] at hrun
      cases hrun
      exact ⟨rfl, he⟩

end Run

end Interruptible

end VlmConvert

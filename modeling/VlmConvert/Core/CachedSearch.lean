import Mathlib.Data.List.Range

/-!
# Searches that resume

The first index at or after a start that has a property, and a cache that
answers such a search from the one before. A hit is used again while it is not
before the start, a miss while the start is not before the one that missed.
That is the fresh search only if no start lies before the one of the cached
search; `Cached.query_eq` says so for one query, and `Cached.Valid` is kept.
-/
namespace VlmConvert

/-- The first index in `[from_, limit)` that has `p`. -/
def firstFrom (p : Nat → Bool) (limit from_ : Nat) : Option Nat :=
  (List.range' from_ (limit - from_)).find? p

section FirstFrom
variable {p : Nat → Bool} {limit from_ k : Nat}

theorem firstFrom_eq_none : firstFrom p limit from_ = none ↔
    ∀ j, from_ ≤ j → j < limit → p j = false := by
  rw [firstFrom, List.find?_eq_none]
  constructor
  · intro h j hj hjl
    simpa using h j (List.mem_range'_1.2 (by omega))
  · intro h j hj
    have := List.mem_range'_1.1 hj
    simp [h j (by omega) (by omega)]

theorem firstFrom_spec (h : firstFrom p limit from_ = some k) :
    from_ ≤ k ∧ k < limit ∧ p k = true ∧ ∀ j, from_ ≤ j → j < k → p j = false := by
  obtain ⟨hp, before, after, hsplit, hbefore⟩ := List.find?_eq_some_iff_append.1 h
  have hk := List.mem_range'_1.1 (show k ∈ List.range' from_ (limit - from_) by simp [hsplit])
  refine ⟨hk.1, by omega, hp, fun j hj hjk => ?_⟩
  have hmem : j ∈ List.range' from_ (limit - from_) := List.mem_range'_1.2 (by omega)
  rw [hsplit, List.mem_append, List.mem_cons] at hmem
  have hsorted := @List.pairwise_lt_range' from_ (limit - from_) 1 Nat.one_pos
  rw [hsplit, List.pairwise_append, List.pairwise_cons] at hsorted
  rcases hmem with hmem | rfl | hmem
  · simpa using hbefore j hmem
  · omega
  · have := hsorted.2.1.1 j hmem
    omega

theorem firstFrom_eq_some (hle : from_ ≤ k) (hlt : k < limit) (hp : p k = true)
    (hbefore : ∀ j, from_ ≤ j → j < k → p j = false) : firstFrom p limit from_ = some k := by
  cases h : firstFrom p limit from_ with
  | none =>
    rw [firstFrom_eq_none.1 h k hle hlt] at hp
    cases hp
  | some k' =>
    obtain ⟨hle', -, hp', hbefore'⟩ := firstFrom_spec h
    rcases Nat.lt_trichotomy k k' with h' | h' | h'
    · rw [hbefore' k hle h'] at hp
      cases hp
    · rw [h']
    · rw [hbefore k' hle' h'] at hp'
      cases hp'

/-- A search from further on, but not behind the hit, hits the same. -/
theorem firstFrom_advance {from' : Nat} (h : firstFrom p limit from_ = some k) (hle : from_ ≤ from')
    (hk : from' ≤ k) : firstFrom p limit from' = some k := by
  obtain ⟨-, hlt, hp, hbefore⟩ := firstFrom_spec h
  exact firstFrom_eq_some hk hlt hp fun j hj hjk => hbefore j (by omega) hjk

theorem firstFrom_advance_none {from' : Nat} (h : firstFrom p limit from_ = none)
    (hle : from_ ≤ from') :
    firstFrom p limit from' = none :=
  firstFrom_eq_none.2 fun j hj hjl => firstFrom_eq_none.1 h j (by omega) hjl

end FirstFrom

/-- A search, the start it had and what it found. -/
structure Cached where
  searched : Bool := false
  from_ : Nat := 0
  at_ : Option Nat := none

namespace Cached
variable (p : Nat → Bool) (limit : Nat)

/-- Whether the cached search has to be done again. -/
def stale (c : Cached) (start : Nat) : Bool :=
  !c.searched || match c.at_ with
    | none => start < c.from_
    | some k => k < start

/-- A search through the cache. -/
def query (c : Cached) (start : Nat) : Option Nat × Cached :=
  if c.stale start then
    (firstFrom p limit start, ⟨true, start, firstFrom p limit start⟩)
  else (c.at_, c)

/-- The cache holds what its search found. -/
def Valid (c : Cached) : Prop := c.searched = true → c.at_ = firstFrom p limit c.from_

variable {p limit}

/-- **A cached search is the fresh one** if it does not start before the
cached one did; the cache then holds a search that starts no later. -/
theorem query_eq {c : Cached} (start : Nat) (hvalid : c.Valid p limit)
    (hmono : c.searched = true → c.from_ ≤ start) :
    (c.query p limit start).1 = firstFrom p limit start ∧ (c.query p limit start).2.Valid p limit ∧
      (c.query p limit start).2.from_ ≤ start := by
  unfold query
  cases hstale : c.stale start with
  | true => exact ⟨rfl, fun _ => rfl, Nat.le_refl _⟩
  | false =>
    have hsearched : c.searched = true := by
      cases hs : c.searched with
      | true => rfl
      | false => simp [stale, hs] at hstale
    have hat := hvalid hsearched
    have hle := hmono hsearched
    refine ⟨?_, hvalid, hle⟩
    change c.at_ = firstFrom p limit start
    cases hk : c.at_ with
    | none =>
      rw [hk] at hat
      exact (firstFrom_advance_none hat.symm hle).symm
    | some k =>
      rw [hk] at hat
      have hks : ¬k < start := by simpa [stale, hsearched, hk] using hstale
      exact (firstFrom_advance hat.symm hle (by omega)).symm

end Cached

end VlmConvert

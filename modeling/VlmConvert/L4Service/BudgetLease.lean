import VlmConvert.Core.Bytes

/-!
# `Budget` and `Lease`: counting budgets with first-come, first-served waiters

`src/service/budget.h`. A `Budget` hands out amounts up to its capacity;
callers of `acquire` queue in `line_` and only the front may take. What was
taken is a `Lease`, a move-only object that gives its amount back when it is
reset, overwritten or destroyed.

Everything between locking and unlocking `mutex_` is one step. Inside
`acquire` that is: joining the line (`enter`), and one pass of the loop,
which takes (`grant`), leaves because `halted()` answered true (`abandon`,
only when the pass could not take), or waits and changes nothing.
`size_t` is 64-bit and wraps (`addSize`, `subSize`); that nothing ever wraps
is a theorem.

`Budget` is generic in what tells two waiters apart (the list iterator `me`
in the source), so that the pipeline (`L4Service.Pipeline`) uses the same
definitions with thread ids.

Results, over every interleaving (`lts`):
* `Inv`, `inv_reachable`: accounting, FIFO order and ownership;
* `leases_safe_fifo`: what the invariant says about a run.
-/
namespace VlmConvert.L4.BudgetLease

/-! ## The budget -/

/-- An entry of `line_`; `me` is the iterator `acquire` holds on to. -/
structure Waiter (ω : Type) where
  me : ω
  amount : Nat
  deriving DecidableEq, Repr

/-- mirrors src/service/budget.h:55-60 -/
structure Budget (ω : Type) where
  capacity : Nat
  used : Nat
  line : List (Waiter ω)
  deriving DecidableEq, Repr

variable {ω : Type}

/-- mirrors src/service/budget.h:23 -/
def Budget.make (capacity : Nat) : Budget ω := ⟨max capacity 1, 0, []⟩

/-- `std::clamp<size_t>(amount, 1, capacity_)`.
mirrors src/service/budget.h:100 -/
def Budget.clamp (b : Budget ω) (amount : Nat) : Nat := min (max amount 1) b.capacity

/-- Joining the line.
mirrors src/service/budget.h:100-102 -/
def Budget.enter (b : Budget ω) (me : ω) (amount : Nat) : Budget ω :=
  { b with line := b.line ++ [⟨me, b.clamp amount⟩] }

/-- A pass of the loop that takes: `me` is in front and its amount fits.
Returns the amount on the new lease.
mirrors src/service/budget.h:104-110 -/
def Budget.grant [DecidableEq ω] (b : Budget ω) (me : ω) : Option (Nat × Budget ω) :=
  match b.line with
  | [] => none
  | w :: rest =>
    if w.me = me ∧ addSize b.used w.amount ≤ b.capacity then
      some (w.amount, { b with used := addSize b.used w.amount, line := rest })
    else none

/-- A pass of the loop that could not take and whose `halted()` answered
true: `me` leaves the line from wherever it stands.
mirrors src/service/budget.h:111-116 -/
def Budget.abandon [DecidableEq ω] (b : Budget ω) (me : ω) : Option (Budget ω) :=
  if (b.grant me).isNone ∧ me ∈ b.line.map (·.me) then
    some { b with line := b.line.eraseP fun w => decide (w.me = me) }
  else none

/-- mirrors src/service/budget.h:45-51 -/
def Budget.release (b : Budget ω) (amount : Nat) : Budget ω :=
  { b with used := subSize b.used amount }

@[simp] theorem make_used (c : Nat) : (Budget.make c : Budget ω).used = 0 := rfl
@[simp] theorem make_line (c : Nat) : (Budget.make c : Budget ω).line = [] := rfl
@[simp] theorem make_capacity (c : Nat) : (Budget.make c : Budget ω).capacity = max c 1 := rfl
@[simp] theorem enter_used (b : Budget ω) (me : ω) (a : Nat) : (b.enter me a).used = b.used := rfl
@[simp] theorem enter_capacity (b : Budget ω) (me : ω) (a : Nat) :
    (b.enter me a).capacity = b.capacity := rfl
@[simp] theorem enter_line (b : Budget ω) (me : ω) (a : Nat) :
    (b.enter me a).line = b.line ++ [⟨me, b.clamp a⟩] := rfl
@[simp] theorem release_line (b : Budget ω) (a : Nat) : (b.release a).line = b.line := rfl
@[simp] theorem release_capacity (b : Budget ω) (a : Nat) :
    (b.release a).capacity = b.capacity := rfl

/-- A budget whose capacity the configuration admits, with everything in it
within that capacity. -/
structure Budget.WF (b : Budget ω) : Prop where
  cap_pos : 1 ≤ b.capacity
  cap_le : b.capacity ≤ 2 ^ 40
  used_le : b.used ≤ b.capacity
  line_pos : ∀ w ∈ b.line, 1 ≤ w.amount
  line_le : ∀ w ∈ b.line, w.amount ≤ b.capacity

theorem wf_make {c : Nat} (h : c ≤ 2 ^ 40) : (Budget.make c : Budget ω).WF :=
  ⟨by simp, by simp; omega, by simp, by simp, by simp⟩

theorem clamp_pos {b : Budget ω} (h : 1 ≤ b.capacity) (a : Nat) : 1 ≤ b.clamp a := by
  simp only [Budget.clamp]; omega

theorem clamp_le (b : Budget ω) (a : Nat) : b.clamp a ≤ b.capacity := by
  simp only [Budget.clamp]; omega

theorem Budget.WF.enter {b : Budget ω} (h : b.WF) (me : ω) (a : Nat) : (b.enter me a).WF := by
  refine ⟨h.cap_pos, h.cap_le, h.used_le, ?_, ?_⟩ <;> intro w hw <;>
    simp only [enter_line, List.mem_append, List.mem_singleton] at hw <;> rcases hw with hw | rfl
  · exact h.line_pos w hw
  · exact clamp_pos h.cap_pos a
  · exact h.line_le w hw
  · exact clamp_le b a

section
variable [DecidableEq ω]

/-- What taking does: the taker was in front, and its amount fitted. -/
theorem grant_cases {b b' : Budget ω} {me : ω} {a : Nat} (h : b.WF)
    (hg : b.grant me = some (a, b')) :
    b.line = ⟨me, a⟩ :: b'.line ∧ b.used + a ≤ b.capacity ∧ b'.used = b.used + a ∧
      b'.capacity = b.capacity := by
  unfold Budget.grant at hg
  split at hg
  · cases hg
  · rename_i w rest hl
    split at hg
    · rename_i hc
      simp only [Option.some.injEq, Prod.mk.injEq] at hg
      obtain ⟨rfl, rfl⟩ := hg
      have hw := h.line_le w (by simp [hl])
      have h1 := h.used_le; have h2 := h.cap_le
      have e : addSize b.used w.amount = b.used + w.amount := addSize_eq (by omega)
      rw [e] at hc
      refine ⟨?_, hc.2, e, rfl⟩
      rw [hl, ← hc.1]
    · cases hg

/-- The front waiter takes as soon as its amount fits. -/
theorem grant_of_fits {b : Budget ω} {w : Waiter ω} {rest : List (Waiter ω)} (h : b.WF)
    (hl : b.line = w :: rest) (hf : b.used + w.amount ≤ b.capacity) :
    ∃ b', b.grant w.me = some (w.amount, b') := by
  have h1 := h.cap_le
  have e : addSize b.used w.amount = b.used + w.amount := addSize_eq (by omega)
  exact ⟨{ b with used := addSize b.used w.amount, line := rest },
    by simp [Budget.grant, hl, e, hf]⟩

theorem Budget.WF.grant {b b' : Budget ω} {me : ω} {a : Nat} (h : b.WF)
    (hg : b.grant me = some (a, b')) : b'.WF := by
  obtain ⟨hl, hf, hu, hc⟩ := grant_cases h hg
  refine ⟨hc ▸ h.cap_pos, hc ▸ h.cap_le, by omega, ?_, ?_⟩ <;> intro w hw
  · exact h.line_pos w (by simp [hl, hw])
  · rw [hc]; exact h.line_le w (by simp [hl, hw])

/-- What leaving does: `me`'s first entry goes, the rest keeps its order. -/
theorem abandon_cases {b b' : Budget ω} {me : ω} (ha : b.abandon me = some b') :
    ∃ l₁ w l₂, b.line = l₁ ++ w :: l₂ ∧ w.me = me ∧ (∀ x ∈ l₁, x.me ≠ me) ∧
      b'.line = l₁ ++ l₂ ∧ b'.used = b.used ∧ b'.capacity = b.capacity := by
  unfold Budget.abandon at ha
  split at ha
  · rename_i hc
    simp only [Option.some.injEq] at ha; subst ha
    obtain ⟨w, hw, rfl⟩ := List.mem_map.1 hc.2
    obtain ⟨w', l₁, l₂, h1, h2, h3, h4⟩ :=
      List.exists_of_eraseP (p := fun x : Waiter ω => decide (x.me = w.me)) hw (by simp)
    refine ⟨l₁, w', l₂, h3, by simpa using h2, fun x hx => by simpa using h1 x hx, h4, rfl, rfl⟩
  · cases ha

theorem Budget.WF.abandon {b b' : Budget ω} {me : ω} (h : b.WF) (ha : b.abandon me = some b') :
    b'.WF := by
  obtain ⟨l₁, w, l₂, hl, -, -, hl', hu, hc⟩ := abandon_cases ha
  refine ⟨hc ▸ h.cap_pos, hc ▸ h.cap_le, by rw [hu, hc]; exact h.used_le, ?_, ?_⟩ <;> intro x hx <;>
    have hx' : x ∈ b.line := by
      rw [hl'] at hx; rw [hl]; simp only [List.mem_append, List.mem_cons] at hx ⊢; tauto
  · exact h.line_pos x hx'
  · rw [hc]; exact h.line_le x hx'

end

theorem release_used {b : Budget ω} {a : Nat} (ha : a ≤ b.used) :
    (b.release a).used = b.used - a :=
  subSize_of_le ha

theorem Budget.WF.release {b : Budget ω} (h : b.WF) {a : Nat} (ha : a ≤ b.used) :
    (b.release a).WF := by
  have := h.used_le
  refine ⟨h.cap_pos, h.cap_le, ?_, h.line_pos, h.line_le⟩
  rw [release_used ha, release_capacity]; omega

/-! ## Leases -/

/-- `budget_` (null: an empty lease) and `amount_`. `ticket` is ghost: the
arrival number of the `acquire` the amount came from. A move takes
`budget_` away from its source and leaves `amount_` (and `ticket`) behind.
mirrors src/service/budget.h:95-96 -/
structure Lease (β : Type) where
  budget : Option β
  amount : Nat
  ticket : Nat
  deriving DecidableEq, Repr

/-- Any number of budgets and lease objects. A lease object's address is its
index in `leases`; `none` there once it is destroyed. Ghost: `arrivals`
numbers the calls of `acquire`, `granted` and `released` log what happened. -/
structure St (β : Type) where
  budget : β → Budget Nat
  leases : List (Option (Lease β))
  arrivals : Nat
  granted : List (β × Nat)
  released : List Nat

/-- One step of some thread. -/
inductive Act (β : Type)
  | enter (b : β) (amount : Nat)
  | grant (b : β) (me : Nat)
  | abandon (b : β) (me : Nat)
  | construct
  | moveConstruct (src : Nat)
  | moveAssign (dst src : Nat)
  | reset (a : Nat)
  | destroy (a : Nat)
  deriving DecidableEq, Repr

variable {β : Type}

def St.leaseAt (s : St β) (a : Nat) : Option (Lease β) := s.leases[a]?.join

def St.init (cap : β → Nat) : St β := ⟨fun b => Budget.make (cap b), [], 0, [], []⟩

/-! ## Weights on lease objects -/

/-- A weight on lease objects that only sees live ones. -/
structure Blind (f : Option (Lease β) → Nat) : Prop where
  gone : f none = 0
  empty : ∀ l : Lease β, l.budget = none → f (some l) = 0

/-- 1 when the object is the live lease of ticket `t`. -/
def holds (t : Nat) : Option (Lease β) → Nat
  | none => 0
  | some l => if l.budget.isSome ∧ l.ticket = t then 1 else 0

theorem blind_holds (t : Nat) : Blind (holds (β := β) t) := ⟨rfl, fun l h => by simp [holds, h]⟩

/-- Total weight of the lease objects. -/
def total (f : Option (Lease β) → Nat) (s : St β) : Nat := (s.leases.map f).sum

theorem leaseAt_some {s : St β} {a : Nat} {l : Lease β} (h : s.leaseAt a = some l) :
    s.leases[a]? = some (some l) := by
  simp only [St.leaseAt, Option.join_eq_some_iff] at h; exact h

/-- `s'` differs from `s` in the lease objects only, and no live lease was
made or lost. -/
def Moves (s s' : St β) : Prop :=
  s'.budget = s.budget ∧ s'.arrivals = s.arrivals ∧ s'.granted = s.granted ∧
    s'.released = s.released ∧ ∀ f : Option (Lease β) → Nat, Blind f → total f s' = total f s

theorem Moves.refl (s : St β) : Moves s s := ⟨rfl, rfl, rfl, rfl, fun _ _ => rfl⟩

theorem Moves.trans {s s₁ s₂ : St β} (h : Moves s s₁) (h' : Moves s₁ s₂) : Moves s s₂ := by
  obtain ⟨a1, a2, a3, a4, a5⟩ := h
  obtain ⟨b1, b2, b3, b4, b5⟩ := h'
  exact ⟨b1.trans a1, b2.trans a2, b3.trans a3, b4.trans a4, fun f hf => (b5 f hf).trans (a5 f hf)⟩

/-- Emptying a slot that holds no live lease is invisible. -/
theorem moves_set_dead {s : St β} {a : Nat} {l : Lease β} {o : Option (Lease β)}
    (hl : s.leases[a]? = some (some l)) (hb : l.budget = none) (ho : ∀ f, Blind f → f o = 0) :
    Moves s { s with leases := s.leases.set a o } := by
  refine ⟨rfl, rfl, rfl, rfl, fun f hf => ?_⟩
  have hs := sum_map_set f s.leases a (some l) o hl
  rw [hf.empty l hb, ho f hf] at hs
  exact hs

/-- A live lease moved into a slot that holds none. -/
theorem moves_transfer {s : St β} {dst src : Nat} {l ld : Lease β} (hne : dst ≠ src)
    (hs : s.leases[src]? = some (some l)) (hd : s.leases[dst]? = some (some ld))
    (hb : ld.budget = none) :
    Moves s { s with
      leases := (s.leases.set dst (some l)).set src (some { l with budget := none }) } := by
  refine ⟨rfl, rfl, rfl, rfl, fun f hf => ?_⟩
  have h1 := sum_map_set f s.leases dst (some ld) (some l) hd
  have h2 := sum_map_set f (s.leases.set dst (some l)) src (some l) (some { l with budget := none })
    (by rw [List.getElem?_set_ne hne]; exact hs)
  rw [hf.empty ld hb] at h1
  rw [hf.empty { l with budget := none } rfl] at h2
  simp only [total]; omega

/-! ## Steps -/

variable [DecidableEq β]

/-- The amount a lease object holds of budget `b`. -/
def held (b : β) : Option (Lease β) → Nat
  | none => 0
  | some l => if l.budget = some b then l.amount else 0

theorem blind_held (b : β) : Blind (held b) := ⟨rfl, fun l h => by simp [held, h]⟩

/-- mirrors src/service/budget.h:84-89 -/
def reset (s : St β) (a : Nat) : Option (St β) :=
  match s.leaseAt a with
  | none => none
  | some l =>
    match l.budget with
    | none => some s
    | some b =>
      some { s with
        budget := Function.update s.budget b ((s.budget b).release l.amount)
        leases := s.leases.set a (some { l with budget := none })
        released := s.released ++ [l.ticket] }

/-- mirrors src/service/budget.h:67-80,99-119 -/
def step (s : St β) : Act β → Option (St β)
  | .enter b amount =>
    some { s with
      budget := Function.update s.budget b ((s.budget b).enter s.arrivals amount)
      arrivals := s.arrivals + 1 }
  | .grant b me =>
    ((s.budget b).grant me).map fun r =>
      { s with
        budget := Function.update s.budget b r.2
        leases := s.leases ++ [some ⟨some b, r.1, me⟩]
        granted := s.granted ++ [(b, me)] }
  | .abandon b me =>
    ((s.budget b).abandon me).map fun b' =>
      { s with
        budget := Function.update s.budget b b'
        leases := s.leases ++ [some ⟨none, 0, 0⟩] }
  | .construct => some { s with leases := s.leases ++ [some ⟨none, 0, 0⟩] }
  | .moveConstruct src =>
    (s.leaseAt src).map fun l =>
      { s with leases := s.leases.set src (some { l with budget := none }) ++ [some l] }
  | .moveAssign dst src =>
    (s.leaseAt src).bind fun l =>
      if dst = src then some s
      else (reset s dst).map fun s₁ =>
        { s₁ with leases := (s₁.leases.set dst (some l)).set src (some { l with budget := none }) }
  | .reset a => reset s a
  | .destroy a => (reset s a).map fun s₁ => { s₁ with leases := s₁.leases.set a none }

def lts (cap : β → Nat) : LTS (St β) (Act β) := LTS.ofFn (· = St.init cap) step

/-- `s'` is `s` after the live lease `l` of budget `b` was given back. -/
def GivesBack (s s' : St β) (l : Lease β) (b : β) : Prop :=
  some l ∈ s.leases ∧ l.budget = some b ∧
    s'.budget = Function.update s.budget b ((s.budget b).release l.amount) ∧
    s'.arrivals = s.arrivals ∧ s'.granted = s.granted ∧ s'.released = s.released ++ [l.ticket] ∧
    ∀ f : Option (Lease β) → Nat, Blind f → total f s' + f (some l) = total f s

theorem GivesBack.moves {s s₁ s₂ : St β} {l : Lease β} {b : β} (h : GivesBack s s₁ l b)
    (h' : Moves s₁ s₂) : GivesBack s s₂ l b := by
  obtain ⟨hm, hb, a1, a2, a3, a4, a5⟩ := h
  obtain ⟨b1, b2, b3, b4, b5⟩ := h'
  exact ⟨hm, hb, b1.trans a1, b2.trans a2, b3.trans a3, b4.trans a4,
    fun f hf => by rw [b5 f hf]; exact a5 f hf⟩

/-- `reset` moves nothing, or gives one live lease back; the object stays,
empty, and the others are untouched. -/
theorem reset_cases {s s' : St β} {a : Nat} (h : reset s a = some s') :
    (Moves s s' ∨ ∃ l b, GivesBack s s' l b) ∧
      (∃ l, s'.leases[a]? = some (some l) ∧ l.budget = none) ∧
      ∀ i, i ≠ a → s'.leases[i]? = s.leases[i]? := by
  unfold reset at h
  split at h
  · cases h
  · rename_i l hl
    have hl' := leaseAt_some hl
    have hlt : a < s.leases.length := (List.getElem?_eq_some_iff.1 hl').1
    split at h
    · rename_i hb
      simp only [Option.some.injEq] at h; subst h
      exact ⟨.inl (Moves.refl s), ⟨l, hl', hb⟩, fun _ _ => rfl⟩
    · rename_i b hb
      simp only [Option.some.injEq] at h; subst h
      refine ⟨.inr ⟨l, b, List.mem_of_getElem? hl', hb, rfl, rfl, rfl, rfl, fun f hf => ?_⟩,
        ⟨{ l with budget := none }, by simp [hlt], rfl⟩,
        fun i hi => by simp [Ne.symm hi]⟩
      have hs := sum_map_set f s.leases a (some l) (some { l with budget := none }) hl'
      rw [hf.empty { l with budget := none } rfl] at hs
      exact hs

/-- Everything a step can do. -/
theorem step_cases {s s' : St β} {a : Act β} (h : step s a = some s') :
    (∃ b amount, a = .enter b amount ∧
      s' = { s with budget := Function.update s.budget b ((s.budget b).enter s.arrivals amount)
                    arrivals := s.arrivals + 1 }) ∨
    (∃ b me n b', a = .grant b me ∧ (s.budget b).grant me = some (n, b') ∧
      s' = { s with budget := Function.update s.budget b b'
                    leases := s.leases ++ [some ⟨some b, n, me⟩]
                    granted := s.granted ++ [(b, me)] }) ∨
    (∃ b me b', a = .abandon b me ∧ (s.budget b).abandon me = some b' ∧
      s' = { s with budget := Function.update s.budget b b'
                    leases := s.leases ++ [some ⟨none, 0, 0⟩] }) ∨
    Moves s s' ∨ ∃ l b, GivesBack s s' l b := by
  cases a with
  | enter b amount => left; exact ⟨b, amount, rfl, by simpa [step] using h.symm⟩
  | grant b me =>
    right; left
    simp only [step, Option.map_eq_some_iff] at h
    obtain ⟨⟨n, b'⟩, hg, rfl⟩ := h
    exact ⟨b, me, n, b', rfl, hg, rfl⟩
  | abandon b me =>
    right; right; left
    simp only [step, Option.map_eq_some_iff] at h
    obtain ⟨b', hg, rfl⟩ := h
    exact ⟨b, me, b', rfl, hg, rfl⟩
  | construct =>
    right; right; right; left
    simp only [step, Option.some.injEq] at h; subst h
    refine ⟨rfl, rfl, rfl, rfl, fun f hf => ?_⟩
    simp [total, hf.empty ⟨none, 0, 0⟩ rfl]
  | moveConstruct src =>
    right; right; right; left
    simp only [step, Option.map_eq_some_iff] at h
    obtain ⟨l, hl, rfl⟩ := h
    refine ⟨rfl, rfl, rfl, rfl, fun f hf => ?_⟩
    have hs := sum_map_set f s.leases src (some l) (some { l with budget := none })
      (leaseAt_some hl)
    rw [hf.empty { l with budget := none } rfl] at hs
    simpa [total] using hs
  | moveAssign dst src =>
    right; right; right
    simp only [step, Option.bind_eq_some_iff] at h
    obtain ⟨l, hl, h⟩ := h
    split at h
    · simp only [Option.some.injEq] at h; subst h; exact .inl (Moves.refl s)
    · rename_i hne
      simp only [Option.map_eq_some_iff] at h
      obtain ⟨s₁, h₁, rfl⟩ := h
      obtain ⟨hm, ⟨ld, hd, hb⟩, hframe⟩ := reset_cases h₁
      have hs₁ : s₁.leases[src]? = some (some l) := by
        rw [hframe src (Ne.symm hne)]; exact leaseAt_some hl
      have ht := moves_transfer hne hs₁ hd hb
      rcases hm with hm | ⟨l', b, hg⟩
      · exact .inl (hm.trans ht)
      · exact .inr ⟨l', b, hg.moves ht⟩
  | reset a => right; right; right; exact (reset_cases h).1
  | destroy a =>
    right; right; right
    simp only [step, Option.map_eq_some_iff] at h
    obtain ⟨s₁, h₁, rfl⟩ := h
    obtain ⟨hm, ⟨ld, hd, hb⟩, -⟩ := reset_cases h₁
    have ht := moves_set_dead hd hb fun f hf => hf.gone
    rcases hm with hm | ⟨l', b, hg⟩
    · exact .inl (hm.trans ht)
    · exact .inr ⟨l', b, hg.moves ht⟩

/-! ## Invariant -/

structure Inv (cap : β → Nat) (s : St β) : Prop where
  wf : ∀ b, (s.budget b).WF
  cap_eq : ∀ b, (s.budget b).capacity = max (cap b) 1
  used : ∀ b, (s.budget b).used = total (held b) s
  line_sorted : ∀ b, (s.budget b).line.Pairwise fun w w' => w.me < w'.me
  line_lt : ∀ b, ∀ w ∈ (s.budget b).line, w.me < s.arrivals
  line_apart : ∀ b b', ∀ w ∈ (s.budget b).line, ∀ w' ∈ (s.budget b').line, w.me = w'.me → b = b'
  granted_lt : ∀ p ∈ s.granted, p.2 < s.arrivals
  granted_line : ∀ p ∈ s.granted, ∀ w ∈ (s.budget p.1).line, p.2 < w.me
  granted_apart : ∀ p ∈ s.granted, ∀ b, ∀ w ∈ (s.budget b).line, p.2 ≠ w.me
  granted_sorted : s.granted.Pairwise fun p q => p.1 = q.1 → p.2 < q.2
  granted_nodup : (s.granted.map Prod.snd).Nodup
  once : ∀ t, total (holds t) s + s.released.count t = (s.granted.map Prod.snd).count t

theorem inv_init (cap : β → Nat) (hcap : ∀ b, 1 ≤ cap b ∧ cap b ≤ 2 ^ 40) :
    Inv cap (St.init cap) := by
  refine ⟨fun b => wf_make (hcap b).2, fun b => rfl, ?_, ?_, ?_, ?_, ?_, ?_, ?_, ?_, ?_, ?_⟩ <;>
    simp [St.init, total]

/-- Budgets that kept their lines apart from one, whose new line is a
sublist of the old: what the order and separation fields need. -/
theorem mem_line_update {s : St β} {b b₀ : β} {B : Budget Nat}
    (hsub : B.line.Sublist (s.budget b₀).line) {w : Waiter Nat}
    (hw : w ∈ (Function.update s.budget b₀ B b).line) : w ∈ (s.budget b).line := by
  by_cases hb : b = b₀
  · subst hb; rw [Function.update_self] at hw; exact hsub.subset hw
  · rwa [Function.update_of_ne hb] at hw

theorem inv_enter {cap : β → Nat} {s : St β} (h : Inv cap s) (b₀ : β) (amount : Nat) :
    Inv cap { s with
      budget := Function.update s.budget b₀ ((s.budget b₀).enter s.arrivals amount)
      arrivals := s.arrivals + 1 } := by
  -- a member of an updated line is an old waiter, or the newcomer with the newest ticket
  have hmem : ∀ b,
    ∀ w ∈ (Function.update s.budget b₀ ((s.budget b₀).enter s.arrivals amount) b).line,
      w ∈ (s.budget b).line ∨ (b = b₀ ∧ w.me = s.arrivals) := by
    intro b w hw
    by_cases hb : b = b₀
    · subst hb
      simp only [Function.update_self, enter_line, List.mem_append, List.mem_singleton] at hw
      rcases hw with hw | rfl
      · exact .inl hw
      · exact .inr ⟨rfl, rfl⟩
    · rw [Function.update_of_ne hb] at hw; exact .inl hw
  refine ⟨fun b => ?_, fun b => ?_, fun b => ?_, fun b => ?_, fun b w hw => ?_, ?_, ?_, ?_, ?_,
    h.granted_sorted, h.granted_nodup, h.once⟩
  · by_cases hb : b = b₀
    · subst hb; simp only [Function.update_self]; exact (h.wf b).enter _ _
    · simp only [Function.update_of_ne hb]; exact h.wf b
  · by_cases hb : b = b₀
    · subst hb; simpa using h.cap_eq b
    · simpa [Function.update_of_ne hb] using h.cap_eq b
  · by_cases hb : b = b₀
    · subst hb; simpa [total] using h.used b
    · simpa [Function.update_of_ne hb, total] using h.used b
  · by_cases hb : b = b₀
    · subst hb
      simp only [Function.update_self, enter_line, List.pairwise_append, List.pairwise_singleton,
        List.mem_singleton, forall_eq, true_and]
      exact ⟨h.line_sorted b, fun w hw => h.line_lt b w hw⟩
    · simp only [Function.update_of_ne hb]; exact h.line_sorted b
  · rcases hmem b w hw with hw | ⟨-, hw⟩
    · exact Nat.lt_succ_of_lt (h.line_lt b w hw)
    · dsimp only; omega
  · intro b b' w hw w' hw' e
    rcases hmem b w hw with h1 | ⟨e1, h1⟩ <;> rcases hmem b' w' hw' with h2 | ⟨e2, h2⟩
    · exact h.line_apart b b' w h1 w' h2 e
    · have := h.line_lt b w h1; omega
    · have := h.line_lt b' w' h2; omega
    · rw [e1, e2]
  · intro p hp; exact Nat.lt_succ_of_lt (h.granted_lt p hp)
  · intro p hp w hw
    rcases hmem p.1 w hw with h1 | ⟨-, h1⟩
    · exact h.granted_line p hp w h1
    · rw [h1]; exact h.granted_lt p hp
  · intro p hp b w hw
    rcases hmem b w hw with h1 | ⟨-, h1⟩
    · exact h.granted_apart p hp b w h1
    · rw [h1]; exact Nat.ne_of_lt (h.granted_lt p hp)

theorem inv_abandon {cap : β → Nat} {s : St β} (h : Inv cap s) {b₀ : β} {me : Nat}
    {B : Budget Nat} (ha : (s.budget b₀).abandon me = some B) :
    Inv cap { s with
      budget := Function.update s.budget b₀ B
      leases := s.leases ++ [some ⟨none, 0, 0⟩] } := by
  obtain ⟨l₁, w₀, l₂, hl, -, -, hl', hu, hc⟩ := abandon_cases ha
  have hsub : B.line.Sublist (s.budget b₀).line := by
    rw [hl, hl']; exact (List.sublist_cons_self w₀ l₂).append_left l₁
  have htot : ∀ f : Option (Lease β) → Nat, Blind f →
      total f { s with leases := s.leases ++ [some ⟨none, 0, 0⟩] } = total f s :=
    fun f hf => by simp [total, hf.empty ⟨none, 0, 0⟩ rfl]
  refine ⟨fun b => ?_, fun b => ?_, fun b => ?_, fun b => ?_,
    fun b w hw => h.line_lt b w (mem_line_update hsub hw),
    fun b b' w hw w' hw' =>
      h.line_apart b b' w (mem_line_update hsub hw) w' (mem_line_update hsub hw'),
    h.granted_lt, fun p hp w hw => h.granted_line p hp w (mem_line_update hsub hw),
    fun p hp b w hw => h.granted_apart p hp b w (mem_line_update hsub hw),
    h.granted_sorted, h.granted_nodup, fun t => ?_⟩
  · by_cases hb : b = b₀
    · subst hb; simp only [Function.update_self]; exact (h.wf b).abandon ha
    · simp only [Function.update_of_ne hb]; exact h.wf b
  · by_cases hb : b = b₀
    · subst hb; simp only [Function.update_self]; rw [hc]; exact h.cap_eq b
    · simp only [Function.update_of_ne hb]; exact h.cap_eq b
  · refine Eq.trans ?_ (htot (held b) (blind_held b)).symm
    by_cases hb : b = b₀
    · subst hb; simp only [Function.update_self]; rw [hu]; exact h.used b
    · simp only [Function.update_of_ne hb]; exact h.used b
  · by_cases hb : b = b₀
    · subst hb; simp only [Function.update_self]; exact (h.line_sorted b).sublist hsub
    · simp only [Function.update_of_ne hb]; exact h.line_sorted b
  · have := htot (holds t) (blind_holds t)
    exact (congrArg (· + s.released.count t) this).trans (h.once t)

theorem inv_grant {cap : β → Nat} {s : St β} (h : Inv cap s) {b₀ : β} {me n : Nat}
    {B : Budget Nat} (hg : (s.budget b₀).grant me = some (n, B)) :
    Inv cap { s with
      budget := Function.update s.budget b₀ B
      leases := s.leases ++ [some ⟨some b₀, n, me⟩]
      granted := s.granted ++ [(b₀, me)] } := by
  obtain ⟨hl, -, hu, hc⟩ := grant_cases (h.wf b₀) hg
  have hsub : B.line.Sublist (s.budget b₀).line := by rw [hl]; exact List.sublist_cons_self _ _
  have hfront : (⟨me, n⟩ : Waiter Nat) ∈ (s.budget b₀).line := by simp [hl]
  -- everyone still in the line arrived after `me`
  have hafter : ∀ w ∈ B.line, me < w.me := by
    have := h.line_sorted b₀
    rw [hl, List.pairwise_cons] at this
    exact this.1
  have hnew : ∀ p ∈ s.granted, p.2 ≠ me := fun p hp => h.granted_apart p hp b₀ _ hfront
  refine ⟨fun b => ?_, fun b => ?_, fun b => ?_, fun b => ?_,
    fun b w hw => h.line_lt b w (mem_line_update hsub hw),
    fun b b' w hw w' hw' =>
      h.line_apart b b' w (mem_line_update hsub hw) w' (mem_line_update hsub hw'),
    ?_, ?_, ?_, ?_, ?_, fun t => ?_⟩
  · by_cases hb : b = b₀
    · subst hb; simp only [Function.update_self]; exact (h.wf b).grant hg
    · simp only [Function.update_of_ne hb]; exact h.wf b
  · by_cases hb : b = b₀
    · subst hb; simp only [Function.update_self]; rw [hc]; exact h.cap_eq b
    · simp only [Function.update_of_ne hb]; exact h.cap_eq b
  · have hus := h.used b
    by_cases hb : b = b₀
    · subst hb; simp only [Function.update_self]; rw [hu, hus]; simp [total, held]
    · simp only [Function.update_of_ne hb]; rw [hus]; simp [total, held, Ne.symm hb]
  · by_cases hb : b = b₀
    · subst hb; simp only [Function.update_self]; exact (h.line_sorted b).sublist hsub
    · simp only [Function.update_of_ne hb]; exact h.line_sorted b
  · intro p hp
    simp only [List.mem_append, List.mem_singleton] at hp
    rcases hp with hp | rfl
    · exact h.granted_lt p hp
    · exact h.line_lt b₀ _ hfront
  · intro p hp w hw
    simp only [List.mem_append, List.mem_singleton] at hp
    rcases hp with hp | rfl
    · exact h.granted_line p hp w (mem_line_update hsub hw)
    · simp only [Function.update_self] at hw; exact hafter w hw
  · intro p hp b w hw
    simp only [List.mem_append, List.mem_singleton] at hp
    rcases hp with hp | rfl
    · exact h.granted_apart p hp b w (mem_line_update hsub hw)
    · intro e
      have hbb : b = b₀ :=
        h.line_apart b b₀ w (mem_line_update hsub hw) _ hfront (by simpa using e.symm)
      subst hbb
      simp only [Function.update_self] at hw
      exact absurd e (Nat.ne_of_lt (hafter w hw))
  · simp only [List.pairwise_append, List.pairwise_singleton, List.mem_singleton, forall_eq,
      true_and]
    refine ⟨h.granted_sorted, fun p hp e => ?_⟩
    obtain ⟨pb, pt⟩ := p
    simp only at e; subst e
    exact h.granted_line (pb, pt) hp _ hfront
  · simp only [List.map_append, List.map_cons, List.map_nil, List.nodup_append, List.nodup_cons,
      List.not_mem_nil, not_false_eq_true, List.nodup_nil, and_true, true_and]
    refine ⟨h.granted_nodup, fun t ht t' ht' e => ?_⟩
    obtain ⟨p, hp, rfl⟩ := List.mem_map.1 ht
    simp only [List.mem_singleton] at ht'
    exact hnew p hp (e.trans ht')
  · have := h.once t
    by_cases e : me = t <;> simp [total, holds, e, List.count_append] at this ⊢ <;> omega

theorem inv_moves {cap : β → Nat} {s s' : St β} (h : Inv cap s) (hm : Moves s s') : Inv cap s' := by
  obtain ⟨e1, e2, e3, e4, hf⟩ := hm
  refine ⟨by rw [e1]; exact h.wf, by rw [e1]; exact h.cap_eq, fun b => ?_,
    by rw [e1]; exact h.line_sorted, by rw [e1, e2]; exact h.line_lt,
    by rw [e1]; exact h.line_apart, by rw [e3, e2]; exact h.granted_lt,
    by rw [e3, e1]; exact h.granted_line, by rw [e3, e1]; exact h.granted_apart,
    by rw [e3]; exact h.granted_sorted, by rw [e3]; exact h.granted_nodup, fun t => ?_⟩
  · rw [e1, hf _ (blind_held b)]; exact h.used b
  · rw [e3, e4, hf _ (blind_holds t)]; exact h.once t

/-- A live lease's amount is part of what its budget has taken. -/
theorem held_le {cap : β → Nat} {s : St β} (h : Inv cap s) {l : Lease β} {b : β}
    (hm : some l ∈ s.leases) (hb : l.budget = some b) : l.amount ≤ (s.budget b).used := by
  have := le_sum_map (held b) hm
  rw [h.used b]
  simpa [held, hb, total] using this

theorem inv_givesBack {cap : β → Nat} {s s' : St β} {l : Lease β} {b₀ : β} (h : Inv cap s)
    (hg : GivesBack s s' l b₀) : Inv cap s' := by
  obtain ⟨hm, hlb, e1, e2, e3, e4, hf⟩ := hg
  have hle := held_le h hm hlb
  have hline : ∀ b, (s'.budget b).line = (s.budget b).line := by
    intro b
    rw [e1]
    by_cases hb : b = b₀
    · subst hb; simp
    · simp [Function.update_of_ne hb]
  refine ⟨fun b => ?_, fun b => ?_, fun b => ?_, fun b => by rw [hline]; exact h.line_sorted b,
    fun b => by rw [hline, e2]; exact h.line_lt b,
    fun b b' => by rw [hline, hline]; exact h.line_apart b b', by rw [e3, e2]; exact h.granted_lt,
    by rw [e3]; exact fun p hp => by rw [hline]; exact h.granted_line p hp,
    by rw [e3]; exact fun p hp b => by rw [hline]; exact h.granted_apart p hp b,
    by rw [e3]; exact h.granted_sorted, by rw [e3]; exact h.granted_nodup, fun t => ?_⟩
  · rw [e1]
    by_cases hb : b = b₀
    · subst hb; simp only [Function.update_self]; exact (h.wf b).release hle
    · simp only [Function.update_of_ne hb]; exact h.wf b
  · rw [e1]
    by_cases hb : b = b₀
    · subst hb; simpa using h.cap_eq b
    · simpa [Function.update_of_ne hb] using h.cap_eq b
  · have hsum := hf (held b) (blind_held b)
    have hus := h.used b
    rw [e1]
    by_cases hb : b = b₀
    · subst hb
      simp only [Function.update_self]
      rw [release_used hle]
      simp only [held, hlb, if_true] at hsum
      omega
    · simp only [Function.update_of_ne hb]
      have : held b (some l) = 0 := by simp [held, hlb, Ne.symm hb]
      omega
  · have hsum := hf (holds t) (blind_holds t)
    have ho := h.once t
    rw [e3, e4, List.count_append]
    by_cases e : l.ticket = t <;> simp [holds, hlb, e] at hsum ⊢ <;> omega

theorem inv_step {cap : β → Nat} {s s' : St β} {a : Act β} (h : Inv cap s)
    (hs : step s a = some s') : Inv cap s' := by
  obtain ⟨b, amount, -, rfl⟩ | ⟨b, me, n, B, -, hg, rfl⟩ | ⟨b, me, B, -, ha, rfl⟩ | hm |
    ⟨l, b, hg⟩ := step_cases hs
  · exact inv_enter h b amount
  · exact inv_grant h hg
  · exact inv_abandon h ha
  · exact inv_moves h hm
  · exact inv_givesBack h hg

theorem inv_reachable (cap : β → Nat) (hcap : ∀ b, 1 ≤ cap b ∧ cap b ≤ 2 ^ 40) (s : St β)
    (hr : (lts cap).Reachable s) : Inv cap s := by
  have hind : (lts cap).Inductive (Inv cap) :=
    ⟨fun s hs => hs ▸ inv_init cap hcap, fun s a s' h hs => inv_step h hs⟩
  exact hind.reachable s hr

/-! ## Headline properties -/

/-- The accounting of one budget: what is taken is what the live leases
hold, it is within capacity, and neither the test `used_ + amount` of a
waiter nor the `used_ -= amount` of a live lease wraps. -/
def Accounted (cap : β → Nat) (s : St β) : Prop :=
  ∀ b, (s.budget b).capacity = cap b ∧ (s.budget b).used = total (held b) s ∧
    (s.budget b).used ≤ (s.budget b).capacity ∧
    (∀ w ∈ (s.budget b).line, (s.budget b).used + w.amount < 2 ^ 64 ∧
      addSize (s.budget b).used w.amount = (s.budget b).used + w.amount) ∧
    ∀ l : Lease β, some l ∈ s.leases → l.budget = some b →
      l.amount ≤ (s.budget b).used ∧
        subSize (s.budget b).used l.amount = (s.budget b).used - l.amount

/-- Every grant is held by exactly one lease object and was never released,
or is held by none and was released exactly once; nothing else is ever
released. -/
def ReleasedOnce (s : St β) : Prop :=
  (∀ p ∈ s.granted, total (holds p.2) s + s.released.count p.2 = 1) ∧
    (∀ t ∈ s.released, t ∈ s.granted.map Prod.snd) ∧
    ((∀ o ∈ s.leases, o = none) → ∀ p ∈ s.granted, s.released.count p.2 = 1)

/-- Grants happen in arrival order: a grant leaves only later arrivals in
the line, and each budget's grants so far are in increasing arrival order. -/
def GrantsInOrder (s : St β) : Prop :=
  (∀ b me s', step s (.grant b me) = some s' → ∀ w ∈ (s.budget b).line, w.me = me ∨ me < w.me) ∧
    s.granted.Pairwise fun p q => p.1 = q.1 → p.2 < q.2

/-- Leaving the line changes no budget's `used_` and no other waiter's place
relative to the rest. -/
def AbandonKeepsOrder (s : St β) : Prop :=
  ∀ b me s', step s (.abandon b me) = some s' →
    (∀ b', (s'.budget b').used = (s.budget b').used) ∧
    (∀ b', b' ≠ b → (s'.budget b').line = (s.budget b').line) ∧
    ∃ l₁ w l₂, (s.budget b).line = l₁ ++ w :: l₂ ∧ w.me = me ∧ (s'.budget b).line = l₁ ++ l₂

theorem accounted_of_inv {cap : β → Nat} (hcap : ∀ b, 1 ≤ cap b ∧ cap b ≤ 2 ^ 40) {s : St β}
    (h : Inv cap s) : Accounted cap s := by
  intro b
  have hwf := h.wf b
  have h1 := hwf.used_le; have h2 := hwf.cap_le
  refine ⟨?_, h.used b, h1, fun w hw => ?_, fun l hl hb => ?_⟩
  · have := h.cap_eq b; have := (hcap b).1; omega
  · have h3 := hwf.line_le w hw
    exact ⟨by omega, addSize_eq (by omega)⟩
  · have h3 := held_le h hl hb
    exact ⟨h3, subSize_of_le h3⟩

theorem releasedOnce_of_inv {cap : β → Nat} {s : St β} (h : Inv cap s) : ReleasedOnce s := by
  have hcount : ∀ p ∈ s.granted, total (holds p.2) s + s.released.count p.2 = 1 := by
    intro p hp
    rw [h.once p.2]
    exact List.count_eq_one_of_mem h.granted_nodup (List.mem_map_of_mem hp)
  refine ⟨hcount, fun t ht => ?_, fun hgone p hp => ?_⟩
  · have h1 := h.once t
    have h2 := List.count_pos_iff.2 ht
    exact List.count_pos_iff.1 (by omega)
  · have hz : total (holds (β := β) p.2) s = 0 := by
      simp only [total, List.sum_eq_zero_iff, List.mem_map]
      rintro n ⟨o, ho, rfl⟩
      rw [hgone o ho]; rfl
    have := hcount p hp
    omega

theorem grantsInOrder_of_inv {cap : β → Nat} {s : St β} (h : Inv cap s) : GrantsInOrder s := by
  refine ⟨fun b me s' hs w hw => ?_, h.granted_sorted⟩
  simp only [step, Option.map_eq_some_iff] at hs
  obtain ⟨⟨n, B⟩, hg, -⟩ := hs
  obtain ⟨hl, -⟩ := grant_cases (h.wf b) hg
  have hsort := h.line_sorted b
  rw [hl] at hw hsort
  rcases List.mem_cons.1 hw with rfl | hw
  · exact .inl rfl
  · exact .inr ((List.pairwise_cons.1 hsort).1 w hw)

theorem abandon_keeps_order (s : St β) : AbandonKeepsOrder s := by
  intro b me s' hs
  simp only [step, Option.map_eq_some_iff] at hs
  obtain ⟨B, ha, rfl⟩ := hs
  obtain ⟨l₁, w, l₂, hl, hw, -, hl', hu, -⟩ := abandon_cases ha
  refine ⟨fun b' => ?_, fun b' hb => by simp [Function.update_of_ne hb], l₁, w, l₂, hl, hw,
    by simpa⟩
  by_cases hb : b' = b
  · subst hb; simpa using hu
  · simp [Function.update_of_ne hb]

/-- **Budgets and leases are safe and fair.** In every state any number of
threads can reach, by any interleaving of `acquire` passes and lease moves,
resets and destructions: the accounting is exact and nothing wraps, every
grant is released exactly once, grants are in arrival order, and leaving
the line disturbs nobody. -/
theorem leases_safe_fifo (cap : β → Nat) (hcap : ∀ b, 1 ≤ cap b ∧ cap b ≤ 2 ^ 40) (s : St β)
    (hr : (lts cap).Reachable s) :
    Accounted cap s ∧ ReleasedOnce s ∧ GrantsInOrder s ∧ AbandonKeepsOrder s := by
  have h := inv_reachable cap hcap s hr
  exact ⟨accounted_of_inv hcap h, releasedOnce_of_inv h, grantsInOrder_of_inv h,
    abandon_keeps_order s⟩

/-- Three waiters on a budget of 4: the second leaves from the middle of the
line, the first lease is moved twice (once onto itself) and overwritten by
the third's, and both are destroyed. -/
def sampleRun : List (Act Unit) :=
  [.enter () 3, .enter () 9, .enter () 1, .grant () 0, .moveConstruct 0, .moveAssign 1 1,
   .abandon () 1, .grant () 2, .moveAssign 1 3, .reset 3, .destroy 0, .destroy 1, .destroy 2,
   .destroy 3]

theorem leases_safe_fifo_sampleRun :
    ∃ s, (lts fun _ : Unit => 4).Reachable s ∧ s.granted = [((), 0), ((), 2)] ∧
      s.released = [0, 2] ∧ (s.budget ()).used = 0 ∧
      (Accounted (fun _ => 4) s ∧ ReleasedOnce s ∧ GrantsInOrder s ∧ AbandonKeepsOrder s) := by
  have hs : ((LTS.exec step (St.init fun _ : Unit => 4) sampleRun).map
      fun s => (s.granted, s.released, (s.budget ()).used)) =
        some ([((), 0), ((), 2)], [0, 2], 0) := by
    decide
  obtain ⟨s, he, hv⟩ := Option.map_eq_some_iff.1 hs
  simp only [Prod.mk.injEq] at hv
  have hr : (lts fun _ : Unit => 4).Reachable s := LTS.reachable_exec (.init rfl) he
  exact ⟨s, hr, hv.1, hv.2.1, hv.2.2, leases_safe_fifo _ (fun _ => by decide) s hr⟩

end VlmConvert.L4.BudgetLease

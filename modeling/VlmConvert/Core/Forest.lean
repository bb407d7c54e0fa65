import VlmConvert.Core.Lts

/-!
# Forests in creation order

A forest as the list of its nodes in the order they were made, each with the
parent it was made under (`none`: the root). No node is made twice, and a
parent is made before its children, so a child list is a sublist of the
creation order and every node hangs below the root.

Results: `count_children`, a node is exactly once in its parent's children
and in nobody else's, and `rooted`, the parents of a node lead to the root.
-/
namespace VlmConvert

structure Forest (α : Type) where
  created : List (α × Option α)
  nodup : (created.map Prod.fst).Nodup
  parent_first : ∀ before x p after, created = before ++ (x, some p) :: after →
    p ∈ before.map Prod.fst

namespace Forest

variable {α : Type}

def nodes (f : Forest α) : List α := f.created.map Prod.fst

def empty : Forest α := ⟨[], List.nodup_nil, fun _ _ _ _ h => absurd h (by simp)⟩

/-- One more node, new, under the root or a node that exists. -/
def add (f : Forest α) (x : α) (p : Option α) (hx : x ∉ f.nodes)
    (hp : ∀ q, p = some q → q ∈ f.nodes) :
    Forest α where
  created := f.created ++ [(x, p)]
  nodup := by
    rw [List.map_append, List.nodup_append]
    refine ⟨f.nodup, by simp, ?_⟩
    intro a ha b hb e
    simp only [List.map_cons, List.map_nil, List.mem_singleton] at hb
    exact hx (hb ▸ e ▸ ha)
  parent_first := by
    intro before y q after h
    rcases List.eq_nil_or_concat after with rfl | ⟨after, last, rfl⟩
    · have hlast := List.append_inj' h rfl
      cases hlast.2
      rw [← hlast.1]
      exact hp q rfl
    · rw [List.concat_eq_append, ← List.cons_append, ← List.append_assoc] at h
      exact f.parent_first before y q after (List.append_inj' h rfl).1

variable (f : Forest α)

/-- `x` hangs below the root. -/
inductive Rooted : α → Prop
  | root {x : α} : (x, none) ∈ f.created → Rooted x
  | under {x p : α} : (x, some p) ∈ f.created → Rooted p → Rooted x

variable {f} {x : α} {p q : Option α}

theorem mem_nodes : x ∈ f.nodes ↔ ∃ p, (x, p) ∈ f.created := by
  simp [nodes]

/-- A node has one parent. -/
theorem parent_unique (hp : (x, p) ∈ f.created) (hq : (x, q) ∈ f.created) : p = q := by
  have := List.inj_on_of_nodup_map f.nodup hp hq rfl
  exact congrArg Prod.snd this

theorem parent_mem {p : α} (h : (x, some p) ∈ f.created) : p ∈ f.nodes := by
  obtain ⟨before, after, hsplit⟩ := List.append_of_mem h
  have hbefore := f.parent_first before x p after hsplit
  rw [nodes, hsplit, List.map_append]
  exact List.mem_append_left _ hbefore

theorem nodes_add {hx : x ∉ f.nodes} {hp : ∀ q, p = some q → q ∈ f.nodes} :
    (f.add x p hx hp).nodes = f.nodes ++ [x] := by
  simp [nodes, add]

theorem rooted (h : x ∈ f.nodes) : f.Rooted x := by
  -- by the position at which the node was made
  obtain ⟨i, hi, rfl⟩ := List.mem_iff_getElem.1 h
  induction i using Nat.strongRecOn with
  | ind i ih =>
    have hlen : i < f.created.length := by simpa [nodes] using hi
    have hsplit : f.created = f.created.take i ++ f.created[i] :: f.created.drop (i + 1) := by
      rw [List.getElem_cons_drop, List.take_append_drop]
    have hmem : f.created[i] ∈ f.created := List.getElem_mem hlen
    have hx : f.nodes[i] = f.created[i].1 := by simp [nodes]
    rw [hx]
    cases hp : f.created[i].2 with
    | none => exact .root (by rw [← hp]; exact hmem)
    | some p =>
      have hbefore := f.parent_first (f.created.take i) f.created[i].1 p (f.created.drop (i + 1))
        (by rw [← hp]; exact hsplit)
      rw [List.map_take] at hbefore
      obtain ⟨j, hj, hje⟩ := List.mem_iff_getElem.1 hbefore
      have hji : j < i := by simp at hj; omega
      refine .under (p := p) (by rw [← hp]; exact hmem) ?_
      have := ih j hji (by simp [nodes]; omega) (List.getElem_mem _)
      rw [← hje]
      simpa [nodes] using this

variable [DecidableEq α]

/-- The children of `p`, in the order they were made. -/
def children (f : Forest α) (p : Option α) : List α :=
  (f.created.filter fun e => decide (e.2 = p)).map Prod.fst

theorem mem_children : x ∈ f.children p ↔ (x, p) ∈ f.created := by
  simp [children]

theorem children_add {hx : x ∉ f.nodes} {hp : ∀ q, p = some q → q ∈ f.nodes} :
    (f.add x p hx hp).children q = f.children q ++ if p = q then [x] else [] := by
  unfold children add
  by_cases h : p = q <;> simp [h]

theorem children_nodup (f : Forest α) (p : Option α) : (f.children p).Nodup :=
  f.nodup.sublist ((List.filter_sublist).map Prod.fst)

theorem count_children (h : (x, p) ∈ f.created) : (f.children p).count x = 1 ∧
    ∀ q, q ≠ p → x ∉ f.children q := by
  refine ⟨List.count_eq_one_of_mem (f.children_nodup p) (mem_children.2 h), fun q hq hm => ?_⟩
  exact hq (parent_unique (mem_children.1 hm) h)

/-! ## Trees of one level -/

omit [DecidableEq α] in
theorem map_root (l : List α) : (l.map fun x => (x, (none : Option α))).map Prod.fst = l := by
  rw [List.map_map]
  exact List.map_id l

/-- Every node is a child of the root. -/
def flat (l : List α) (h : l.Nodup) : Forest α where
  created := l.map fun x => (x, none)
  nodup := by rwa [map_root]
  parent_first := by
    intro before x p after hsplit
    have hmem : (x, some p) ∈ l.map fun x => (x, (none : Option α)) := by rw [hsplit]; simp
    simp at hmem

section Flat
variable {l : List α} {h : l.Nodup}

omit [DecidableEq α] in
theorem nodes_flat : (flat l h).nodes = l := map_root l

omit [DecidableEq α] in
theorem mem_flat : (x, p) ∈ (flat l h).created ↔ x ∈ l ∧ p = none := by
  simp [flat, eq_comm]

theorem children_flat : (flat l h).children p = if p = none then l else [] := by
  unfold children flat
  by_cases hp : p = none
  · simp [hp, List.filter_map, Function.comp_def]
  · have hp' : none ≠ p := fun e => hp e.symm
    simp [hp, hp', List.filter_map, Function.comp_def]

end Flat

end Forest

end VlmConvert

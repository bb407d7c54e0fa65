import Mathlib.Data.List.Basic

/-!
# Nested marks

Sequences of opening and closing marks over arbitrary labels, properly
nested: every mark has its partner with the same label, and no two pairs
cross.
-/
namespace VlmConvert

inductive Mark (α : Type)
  | open_ (label : α)
  | close (label : α)
  deriving DecidableEq, Repr

/-- Balanced and properly nested. -/
inductive Nested {α : Type} : List (Mark α) → Prop
  | nil : Nested []
  | pair {inner rest : List (Mark α)} (label : α) (hinner : Nested inner) (hrest : Nested rest) :
      Nested (.open_ label :: (inner ++ .close label :: rest))

namespace Nested

variable {α : Type} {l m : List (Mark α)}

theorem append (hl : Nested l) (hm : Nested m) : Nested (l ++ m) := by
  induction hl with
  | nil => exact hm
  | @pair inner rest label hinner hrest ihinner ihrest =>
    rw [List.cons_append, List.append_assoc, List.cons_append]
    exact .pair label hinner ihrest

/-- A pair around a nested sequence. -/
theorem wrap (label : α) (hl : Nested l) : Nested (.open_ label :: (l ++ [.close label])) :=
  .pair label hl .nil

end Nested

end VlmConvert

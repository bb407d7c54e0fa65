import VlmConvert.L2Table.LatexRender

/-!
# Splitting at the top level

`split_top_level` (`src/mapping/nemotron.cpp:116-142`) cuts a text at each
separator outside of braces. The row separator `\\` is itself an escape, and the
loop tests for it first.

`IsPart` says which texts can stand between two separators, in terms of where a
position is: behind a backslash, and in how many braces.

Results:

* `splitTopLevel_join`: joined, the parts are the text.
* `splitTopLevel_exact`: and parts that hold no separator come back as they were.
-/
namespace VlmConvert.L2.Latex

open Bytes

/-- The separators of entries and of rows. -/
def separators : List Bytes := [ascii "&", ascii "\\\\"]

/-! ## Joining the parts -/

theorem splitFrom_ne_nil (separator : Bytes) : ∀ (drop : Nat) (copy : Bool) (depth : Nat)
    (part text : Bytes), splitFrom separator drop copy depth part text ≠ [] := by
  intro drop copy depth part text
  induction text generalizing drop copy depth part with
  | nil => simp [splitFrom]
  | cons c text ih =>
    cases drop with
    | succ drop => exact ih drop copy depth part
    | zero =>
      cases copy with
      | true => exact ih 0 false depth (part ++ [c])
      | false =>
        rw [splitFrom]
        split
        · exact List.cons_ne_nil _ _
        · split
          · exact ih 0 true depth (part ++ [c])
          · exact ih 0 false _ (part ++ [c])

theorem intercalate_cons {separator part : Bytes} {parts : List Bytes} (h : parts ≠ []) :
    separator.intercalate (part :: parts) = part ++ separator ++ separator.intercalate parts := by
  obtain ⟨next, parts, rfl⟩ := List.exists_cons_of_ne_nil h
  rw [List.intercalate_cons_cons, List.append_assoc]

/-- The part that has been begun stands in front of the text left. -/
theorem splitFrom_join {separator : Bytes} (hne : separator ≠ []) (copy : Bool) (depth : Nat)
    (part text : Bytes) :
    separator.intercalate (splitFrom separator 0 copy depth part text) = part ++ text := by
  induction hn : text.length using Nat.strongRecOn generalizing copy depth part text with
  | ind n ih =>
    cases text with
    | nil => simp [splitFrom]
    | cons c text =>
      rw [List.length_cons] at hn
      have hbyte : ∀ copy depth, separator.intercalate
          (splitFrom separator 0 copy depth (part ++ [c]) text) = part ++ c :: text := by
        intro copy depth
        rw [ih text.length (by omega) copy depth _ text rfl]
        simp
      cases copy with
      | true => exact hbyte false depth
      | false =>
        rw [splitFrom]
        split
        · rename_i hcut
          obtain ⟨s, more, rfl⟩ := List.exists_cons_of_ne_nil hne
          obtain ⟨rest, hrest⟩ := List.isPrefixOf_iff_prefix.1 hcut.2
          obtain ⟨rfl, htext⟩ := List.cons.inj hrest
          change more ++ rest = text at htext
          subst htext
          rw [List.length_append] at hn
          rw [intercalate_cons (splitFrom_ne_nil _ _ _ _ _ _), List.length_cons,
            Nat.add_sub_cancel, splitFrom_drop, ih rest.length (by omega) _ _ _ rest rfl]
          simp
        · split
          · exact hbyte true depth
          · exact hbyte false _

/-- **Nothing lost.** Joined by the separator, the parts are the text. -/
theorem splitTopLevel_join {separator : Bytes} (hne : separator ≠ []) (text : Bytes) :
    separator.intercalate (splitTopLevel text separator) = text := by
  rw [splitTopLevel, splitFrom_join hne, List.nil_append]

/-! ## Parts -/

/-- Where a position is: behind a backslash, and in how many braces. -/
structure Position where
  escaped : Bool := false
  depth : Int := 0

def Position.next (p : Position) (c : UInt8) : Position :=
  if p.escaped then { p with escaped := false }
  else if c = 0x5C then { p with escaped := true }
  else if c = 0x7B then { p with depth := p.depth + 1 }
  else if c = 0x7D then { p with depth := p.depth - 1 }
  else p

/-- The position behind a text. -/
def behind (x : Bytes) : Position := x.foldl Position.next {}

/-- A text that can stand between two separators: each `}` closes an earlier
`{` and each `{` is closed, no separator stands outside of the braces, and no
backslash is left over. -/
structure IsPart (separator x : Bytes) : Prop where
  closes : ∀ y, y <+: x → 0 ≤ (behind y).depth
  balanced : (behind x).depth = 0
  unsplit : ∀ y z, x = y ++ z → (behind y).escaped = false → (behind y).depth = 0 →
    ¬ separator <+: z
  complete : (behind x).escaped = false

theorem isPart_iff (separator x : Bytes) : IsPart separator x ↔
    (∀ i < x.length + 1, 0 ≤ (behind (x.take i)).depth) ∧ (behind x).depth = 0 ∧
      (∀ i < x.length + 1, (behind (x.take i)).escaped = false → (behind (x.take i)).depth = 0 →
        separator.isPrefixOf (x.drop i) = false) ∧ (behind x).escaped = false := by
  constructor
  · intro h
    refine ⟨fun i _ => h.closes _ (List.take_prefix i x), h.balanced, fun i _ he hd => ?_,
      h.complete⟩
    rw [← Bool.not_eq_true, List.isPrefixOf_iff_prefix]
    exact h.unsplit _ _ (List.take_append_drop i x).symm he hd
  · rintro ⟨hcloses, hbalanced, hunsplit, hcomplete⟩
    refine ⟨fun y hy => ?_, hbalanced, fun y z hx he hd hcut => ?_, hcomplete⟩
    · have h := hcloses y.length (Nat.lt_succ_of_le hy.length_le)
      rwa [← List.prefix_iff_eq_take.1 hy] at h
    · have h := hunsplit y.length (by rw [hx, List.length_append]; omega)
      rw [hx, List.take_left, List.drop_left] at h
      have hno := h he hd
      rw [List.isPrefixOf_iff_prefix.2 hcut] at hno
      cases hno

instance (separator x : Bytes) : Decidable (IsPart separator x) :=
  decidable_of_iff _ (isPart_iff separator x).symm

theorem behind_concat (y : Bytes) (c : UInt8) : behind (y ++ [c]) = (behind y).next c := by
  rw [behind, List.foldl_append]
  rfl

/-- A separator does not begin in a part and end behind it. -/
theorem IsPart.not_cut {separator x y z : Bytes} {c : UInt8} (h : IsPart separator x)
    (hsep : separator ∈ separators) (hx : x = y ++ c :: z) (hescaped : (behind y).escaped = false)
    (hdepth : (behind y).depth = 0) (rest : Bytes) : ¬ separator <+: c :: (z ++ rest) := by
  intro hcut
  apply h.unsplit y (c :: z) hx hescaped hdepth
  simp only [separators, List.mem_cons, List.not_mem_nil, or_false] at hsep
  rcases hsep with rfl | rfl
  · obtain ⟨hc, -⟩ := List.cons_prefix_cons.1 hcut
    exact List.cons_prefix_cons.2 ⟨hc, List.nil_prefix⟩
  · obtain ⟨hc, hcut'⟩ := List.cons_prefix_cons.1 hcut
    cases z with
    | nil =>
      have hlast : (behind x).escaped = true := by
        rw [hx, behind_concat, Position.next, hescaped, ← hc]
        rfl
      rw [h.complete] at hlast
      cases hlast
    | cons d z =>
      obtain ⟨hd, -⟩ := List.cons_prefix_cons.1 hcut'
      exact List.cons_prefix_cons.2 ⟨hc, List.cons_prefix_cons.2 ⟨hd, List.nil_prefix⟩⟩

/-- Inside a part the loop is where the position is, at any depth. -/
theorem IsPart.splitFrom {separator x : Bytes} (h : IsPart separator x)
    (hsep : separator ∈ separators) (depth : Nat) (rest : Bytes) :
    ∀ (z y part : Bytes), x = y ++ z →
      splitFrom separator 0 (behind y).escaped (depth + (behind y).depth.toNat) part (z ++ rest) =
        splitFrom separator 0 false depth (part ++ z) rest := by
  intro z
  induction z with
  | nil =>
    intro y part hx
    rw [List.append_nil] at hx
    rw [← hx, h.complete, h.balanced, List.append_nil]
    rfl
  | cons c z ih =>
    intro y part hx
    have hx' : x = y ++ [c] ++ z := by rw [hx, List.append_assoc]; rfl
    have hclosed := h.closes y ⟨c :: z, hx.symm⟩
    have hclosed' := h.closes (y ++ [c]) ⟨z, hx'.symm⟩
    have hnext := ih (y ++ [c]) (part ++ [c]) hx'
    rw [behind_concat] at hnext hclosed'
    rw [List.append_assoc, List.singleton_append] at hnext
    rw [List.cons_append, ← hnext]
    cases hescaped : (behind y).escaped with
    | true =>
      rw [Latex.splitFrom, Position.next, if_pos hescaped]
    | false =>
      have hno : ¬ (depth + (behind y).depth.toNat = 0 ∧
        separator.isPrefixOf (c :: (z ++ rest)) = true) := by
        intro hcut
        exact h.not_cut hsep hx hescaped (by omega) rest (List.isPrefixOf_iff_prefix.1 hcut.2)
      rw [Latex.splitFrom, if_neg hno]
      rw [Position.next, hescaped] at hclosed' ⊢
      simp only [Bool.false_eq_true, if_false] at hclosed' ⊢
      by_cases hbackslash : c = 0x5C
      · simp [hbackslash]
      by_cases hopen : c = 0x7B
      · have hdepth : ((behind y).depth + 1).toNat = (behind y).depth.toNat + 1 := by omega
        simp [hopen, hdepth, Nat.add_assoc]
      by_cases hclose : c = 0x7D
      · simp only [hclose] at hclosed' ⊢
        have hpos : 0 ≤ (behind y).depth - 1 := by simpa using hclosed'
        have hdepth : depth + (behind y).depth.toNat - 1 = depth + ((behind y).depth.toNat - 1) :=
          by omega
        simp [hdepth]
      · simp [hbackslash, hopen, hclose, hescaped]

/-- A part is taken whole, at any depth. -/
theorem IsPart.passed {separator x : Bytes} (h : IsPart separator x)
    (hsep : separator ∈ separators) : Passed separator x :=
  fun depth part rest => h.splitFrom hsep depth rest x [] part rfl

/-- **Exact.** For both separators, the parts of a text give it back, and parts
that hold no separator come back from the text they give. -/
theorem splitTopLevel_exact {separator : Bytes} (hsep : separator ∈ separators) :
    (∀ text, separator.intercalate (splitTopLevel text separator) = text) ∧
      ∀ parts : List Bytes, parts ≠ [] → (∀ x ∈ parts, IsPart separator x) →
        splitTopLevel (separator.intercalate parts) separator = parts := by
  have hne : separator ≠ [] := by
    simp only [separators, List.mem_cons, List.not_mem_nil, or_false] at hsep
    rcases hsep with rfl | rfl <;> decide
  exact ⟨splitTopLevel_join hne, fun parts hparts hall =>
    split_intercalate hne hparts fun x hx => (hall x hx).passed hsep⟩

/-- Rows with a line break inside of braces and an escaped brace. -/
theorem splitTopLevel_exact_rows :
    splitTopLevel (ascii "a & \x7bb\\\\c\x7d\\\\ d \\\x7d") (ascii "\\\\") =
      [ascii "a & \x7bb\\\\c\x7d", ascii " d \\\x7d"] :=
  (splitTopLevel_exact (by decide)).2
    [ascii "a & \x7bb\\\\c\x7d", ascii " d \\\x7d"] (by decide) (by decide)

end VlmConvert.L2.Latex

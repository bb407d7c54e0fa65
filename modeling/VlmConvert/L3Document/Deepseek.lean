import VlmConvert.Core.Bytes

/-!
# DeepSeek-OCR blocks

The block scan of `src/mapping/deepseek.cpp`: an annotation line opens a
block, and the lines behind it are its content. A text block takes the lines
up to the next annotation; a table block takes the lines from the next one
with `<table` to the next one with `</table>`, wherever they are.

Lines are kept by index, so that a block says which lines it took. The number
parser of `match_annotation` (`std::from_chars` on a `double`) is a parameter:
what a coordinate is worth plays no part.

Results:

* `mem_tableTaken`: which lines a table takes.
* `scanBlocks_own`: every block is the one its annotation asks for.
* `scanBlocks_opened`: where the tables keep to their place, every annotation
  opens a block.
* `deepseekBlocks_partition_iff`: exactly when the blocks divide the lines.
-/
namespace VlmConvert.L3.Deepseek

open Bytes

/-! ## Annotations -/

/-- mirrors src/mapping/deepseek.cpp:21-23 -/
def isWord (c : UInt8) : Bool := isAlpha c || isDigit c || c == 0x5F || 0x80 ≤ c

/-- The text behind a given start, if it has it.
mirrors src/mapping/deepseek.cpp:25-31 -/
def consume (start text : Bytes) : Bool × Bytes :=
  if start.isPrefixOf text then (true, text.drop start.length) else (false, text)

/-- mirrors src/mapping/deepseek.cpp:57-60 -/
structure AnnotationLine (ν : Type) where
  label : Bytes
  coords : List ν
  deriving DecidableEq, Repr

section AnnotationLines
variable {ν : Type} (fromChars : Bytes → Option (ν × Bytes))

/-- `fromChars` reads a number and leaves the rest; all of a piece must be
read.
mirrors src/mapping/deepseek.cpp:44-55 -/
def parseNumber (piece : Bytes) : Option ν :=
  let piece := stripView piece
  if piece.isEmpty || piece == [0x2E] then none
  else
    match fromChars piece with
    | some (value, []) => some value
    | _ => none

/-- The four numbers between the brackets, or none.
mirrors src/mapping/deepseek.cpp:97-117 -/
def parseCoords (coords : Bytes) : List ν :=
  match (coords.splitOn 0x2C).mapM (parseNumber fromChars) with
  | none => []
  | some numbers => if numbers.length = 4 then numbers else []

/-- mirrors src/mapping/deepseek.cpp:65-118 -/
def matchAnnotationLine (line : Bytes) : Option (AnnotationLine ν) :=
  let line := (consume (ascii "<|ref|>") line).2
  let label := line.takeWhile isWord
  if label.isEmpty then none
  else
    let line := (consume (ascii "<|/ref|>") (line.dropWhile isWord)).2
    let line := (consume (ascii "<|det|>") line).2
    match consume (ascii "[[") line with
    | (false, _) => none
    | (true, line) =>
      let isCoord := fun c => isDigit c || c == 0x2E || c == 0x2C || c == 0x20
      let coords := line.takeWhile isCoord
      if coords.isEmpty then none
      else
        match consume (ascii "]]") (line.dropWhile isCoord) with
        | (false, _) => none
        | (true, line) =>
          let line := (consume (ascii "<|/det|>") line).2
          if !(stripView line).isEmpty then none
          else some ⟨label, parseCoords fromChars coords⟩

/-! ## Blocks -/

/-- mirrors src/mapping/deepseek.cpp:150-164 -/
def containsCi (text needle : Bytes) : Bool := (findSub needle (text.map toLower)).isSome

/-- mirrors src/mapping/deepseek.cpp:134-140 -/
def rstrip (text : Bytes) : Bytes := text.rdropWhile isSpace

/-- mirrors src/mapping/deepseek.cpp:142-148 -/
def stripNewlines (text : Bytes) : Bytes := (text.dropWhile (· == 0x0A)).rdropWhile (· == 0x0A)

/-- A block: its annotation, the line of it, and the lines it took. -/
structure Block (ν : Type) where
  opened : Nat
  note : AnnotationLine ν
  taken : List Nat
  deriving DecidableEq, Repr

/-- mirrors src/mapping/deepseek.cpp:409-416, 443-444 -/
def Block.content (lines : List Bytes) (b : Block ν) : Bytes :=
  stripNewlines (List.intercalate [0x0A] (b.taken.map fun j => rstrip (lines.getD j [])))

def annotationAt (lines : List Bytes) (i : Nat) : Option (AnnotationLine ν) :=
  lines[i]?.bind fun line => matchAnnotationLine fromChars (stripView line)

/-- The lines a table block takes, from index `i` on.
mirrors src/mapping/deepseek.cpp:417-430 -/
def tableTaken : Bool → Nat → List Bytes → List Nat
  | _, _, [] => []
  | started, i, line :: rest =>
    let started := started || containsCi line (ascii "<table")
    if started then
      i :: if containsCi line (ascii "</table>") then [] else tableTaken started (i + 1) rest
    else tableTaken started (i + 1) rest

/-- The lines another block takes, and where it ends.
mirrors src/mapping/deepseek.cpp:431-441 -/
def textTaken (visited : List Nat) : Nat → List Bytes → List Nat × Nat
  | i, [] => ([], i)
  | i, line :: rest =>
    if (matchAnnotationLine fromChars (stripView line)).isSome then ([], i)
    else
      let r := textTaken visited (i + 1) rest
      (if i ∈ visited then r.1 else i :: r.1, r.2)

/-- The loop at line `i`.
mirrors src/mapping/deepseek.cpp:395-446 -/
def scanBlocks (lines : List Bytes) : Nat → Nat → List Nat → List (Block ν)
  | 0, _, _ => []
  | n + 1, i, visited =>
    if lines.length ≤ i then []
    else if i ∈ visited then scanBlocks lines n (i + 1) visited
    else
      match annotationAt fromChars lines i with
      | none => scanBlocks lines n (i + 1) visited
      | some note =>
        if note.coords.isEmpty then scanBlocks lines n (i + 1) visited
        else if note.label == ascii "table" then
          let taken := tableTaken false (i + 1) (lines.drop (i + 1))
          ⟨i, note, taken⟩ :: scanBlocks lines n (i + 1) (visited ++ taken)
        else
          let r := textTaken fromChars visited (i + 1) (lines.drop (i + 1))
          ⟨i, note, r.1⟩ :: scanBlocks lines n r.2 (visited ++ r.1)

/-- mirrors src/mapping/deepseek.cpp:387-446 -/
def deepseekBlocks (text : Bytes) : List (Block ν) :=
  scanBlocks fromChars (text.splitOn 0x0A) (text.splitOn 0x0A).length 0 []

end AnnotationLines

/-! ## What a block takes -/

def hasOpen (lines : List Bytes) (i : Nat) : Prop :=
  ∃ line, lines[i]? = some line ∧ containsCi line (ascii "<table") = true

def hasClose (lines : List Bytes) (i : Nat) : Prop :=
  ∃ line, lines[i]? = some line ∧ containsCi line (ascii "</table>") = true

/-- A `<table` has been seen from line `i` through line `j`. -/
def Begun (lines : List Bytes) (started : Bool) (i j : Nat) : Prop :=
  started = true ∨ ∃ s, i ≤ s ∧ s ≤ j ∧ hasOpen lines s

section Taken

theorem drop_cons_line {lines rest : List Bytes} {line : Bytes} {i : Nat}
    (h : lines.drop i = line :: rest) :
    lines[i]? = some line ∧ lines.drop (i + 1) = rest ∧ i < lines.length := by
  refine ⟨?_, ?_, ?_⟩
  · rw [← List.head?_drop, h]
    rfl
  · rw [← List.tail_drop, h]
    rfl
  · by_contra hge
    rw [List.drop_eq_nil_of_le (by omega)] at h
    cases h

theorem begun_next {lines : List Bytes} {started opened : Bool} {i j : Nat}
    (hopen : hasOpen lines i ↔ opened = true) (hij : i ≤ j) :
    Begun lines started i j ↔ Begun lines (started || opened) (i + 1) j := by
  constructor
  · rintro (hstarted | ⟨s, his, hsj, hs⟩)
    · exact Or.inl (by simp [hstarted])
    · by_cases hsi : s = i
      · subst hsi
        exact Or.inl (by simp [hopen.1 hs])
      · exact Or.inr ⟨s, by omega, hsj, hs⟩
  · rintro (hstarted | ⟨s, his, hsj, hs⟩)
    · rcases Bool.or_eq_true _ _ ▸ hstarted with hstarted | hopened
      · exact Or.inl hstarted
      · exact Or.inr ⟨i, Nat.le_refl i, hij, hopen.2 hopened⟩
    · exact Or.inr ⟨s, by omega, hsj, hs⟩

/-- A table takes the lines from the first `<table` on, through the first
`</table>` at or behind it. -/
theorem mem_tableTaken : ∀ {rest lines : List Bytes} {i : Nat} {started : Bool} (j : Nat),
    lines.drop i = rest →
    (j ∈ tableTaken started i rest ↔ i ≤ j ∧ j < lines.length ∧ Begun lines started i j ∧
      ∀ c, i ≤ c → c < j → Begun lines started i c → ¬hasClose lines c) := by
  intro rest
  induction rest with
  | nil =>
    intro lines i started j hdrop
    have hlen : lines.length ≤ i := List.drop_eq_nil_iff.1 hdrop
    constructor
    · intro hj; cases hj
    · rintro ⟨hij, hj, -⟩; omega
  | cons line rest ih =>
    intro lines i started j hdrop
    obtain ⟨hline, hrest, hi⟩ := drop_cons_line hdrop
    have hopen : hasOpen lines i ↔ containsCi line (ascii "<table") = true := by
      simp [hasOpen, hline]
    have hclose : hasClose lines i ↔ containsCi line (ascii "</table>") = true := by
      simp [hasClose, hline]
    have hbegun : ∀ k, i ≤ k → (Begun lines started i k ↔
        Begun lines (started || containsCi line (ascii "<table")) (i + 1) k) :=
      fun k hk => begun_next hopen hk
    rw [tableTaken]
    cases hstarted : started || containsCi line (ascii "<table") with
    | true =>
      -- every line from here on counts
      have hall : ∀ k, i ≤ k → Begun lines started i k := by
        intro k hk
        rw [hbegun k hk, hstarted]
        exact Or.inl rfl
      rw [if_pos rfl, List.mem_cons]
      cases hclosed : containsCi line (ascii "</table>") with
      | true =>
        rw [if_pos rfl]
        constructor
        · rintro (rfl | hj)
          · exact ⟨Nat.le_refl j, hi, hall j (Nat.le_refl j), fun c hc hcj => by omega⟩
          · cases hj
        · rintro ⟨hij, -, -, hnone⟩
          by_cases hji : j = i
          · exact Or.inl hji
          · exact absurd (hclose.2 hclosed)
              (hnone i (Nat.le_refl i) (by omega) (hall i (Nat.le_refl i)))
      | false =>
        rw [if_neg Bool.false_ne_true, ih j hrest]
        constructor
        · rintro (rfl | ⟨hij, hj, -, hnone⟩)
          · exact ⟨Nat.le_refl j, hi, hall j (Nat.le_refl j), fun c hc hcj => by omega⟩
          · refine ⟨by omega, hj, hall j (by omega), fun c hc hcj _ => ?_⟩
            by_cases hci : c = i
            · rw [hci, hclose, hclosed]
              exact Bool.false_ne_true
            · exact hnone c (by omega) hcj (Or.inl rfl)
        · rintro ⟨hij, hj, -, hnone⟩
          by_cases hji : j = i
          · exact Or.inl hji
          · exact Or.inr ⟨by omega, hj, Or.inl rfl,
              fun c hc hcj _ => hnone c (by omega) hcj (hall c (by omega))⟩
    | false =>
      rw [if_neg Bool.false_ne_true, ih j hrest]
      have hnot : ¬Begun lines started i i := by
        rw [hbegun i (Nat.le_refl i), hstarted]
        rintro (h | ⟨s, his, hsi, -⟩)
        · cases h
        · omega
      constructor
      · rintro ⟨hij, hj, hbeg, hnone⟩
        refine ⟨by omega, hj, ?_, fun c hc hcj hbc => ?_⟩
        · rw [hbegun j (by omega), hstarted]
          exact hbeg
        · have hci : c ≠ i := by
            rintro rfl
            exact hnot hbc
          rw [hbegun c hc, hstarted] at hbc
          exact hnone c (by omega) hcj hbc
      · rintro ⟨hij, hj, hbeg, hnone⟩
        have hji : j ≠ i := by
          rintro rfl
          exact hnot hbeg
        rw [hbegun j hij, hstarted] at hbeg
        refine ⟨by omega, hj, hbeg, fun c hc hcj hbc => ?_⟩
        refine hnone c (by omega) hcj ?_
        rw [hbegun c (by omega), hstarted]
        exact hbc

theorem tableTaken_sorted : ∀ {rest : List Bytes} {i : Nat} {started : Bool},
    (tableTaken started i rest).Pairwise (· < ·) ∧ ∀ j ∈ tableTaken started i rest, i ≤ j := by
  intro rest
  induction rest with
  | nil => intro i started; exact ⟨List.Pairwise.nil, nofun⟩
  | cons line rest ih =>
    intro i started
    rw [tableTaken]
    obtain ⟨hsorted, hle⟩ := @ih (i + 1) (started || containsCi line (ascii "<table"))
    split
    · split
      · exact ⟨List.pairwise_singleton _ _, fun j hj => by rw [List.mem_singleton.1 hj]⟩
      · refine ⟨List.Pairwise.cons (fun j hj => hle j hj) hsorted, fun j hj => ?_⟩
        rcases List.mem_cons.1 hj with rfl | hj
        · exact Nat.le_refl _
        · exact Nat.le_of_succ_le (hle j hj)
    · exact ⟨hsorted, fun j hj => Nat.le_of_succ_le (hle j hj)⟩

end Taken

/-! ## The scan -/

section Scan
variable {ν : Type} (fromChars : Bytes → Option (ν × Bytes)) (lines : List Bytes)

/-- An annotation line, whatever its coordinates. -/
def Recognised (i : Nat) : Prop := (annotationAt fromChars lines i).isSome = true

/-- An annotation line with its four coordinates. -/
def opensBlock (i : Nat) : Bool :=
  (annotationAt fromChars lines i).any fun note => note.coords.length == 4

/-- No annotation line behind line `o`, through line `j`. -/
def SameBlock (o j : Nat) : Prop := o < j ∧ ∀ k, o < k → k ≤ j → ¬Recognised fromChars lines k

variable {fromChars lines}

theorem parseCoords_length (coords : Bytes) :
    parseCoords fromChars coords = [] ∨ (parseCoords fromChars coords).length = 4 := by
  unfold parseCoords
  split
  · exact Or.inl rfl
  · split
    · rename_i hlen
      exact Or.inr hlen
    · exact Or.inl rfl

theorem matchAnnotationLine_coords {line : Bytes} {note : AnnotationLine ν}
    (h : matchAnnotationLine fromChars line = some note) :
    note.coords = [] ∨ note.coords.length = 4 := by
  have hcoords : ∃ coords, note.coords = parseCoords fromChars coords := by
    unfold matchAnnotationLine at h
    dsimp only at h
    split at h
    · cases h
    split at h
    · cases h
    split at h
    · cases h
    split at h
    · cases h
    split at h
    · cases h
    · cases h
      exact ⟨_, rfl⟩
  obtain ⟨coords, hcoords⟩ := hcoords
  rw [hcoords]
  exact parseCoords_length coords

theorem opensBlock_of_coords {i : Nat} {note : AnnotationLine ν}
    (h : annotationAt fromChars lines i = some note) :
    opensBlock fromChars lines i = !note.coords.isEmpty := by
  have hcoords : note.coords = [] ∨ note.coords.length = 4 := by
    obtain ⟨line, -, hmatch⟩ := Option.bind_eq_some_iff.1 h
    exact matchAnnotationLine_coords hmatch
  rw [opensBlock, h, Option.any_some]
  rcases hcoords with hnil | hfour
  · simp [hnil]
  · have hne : note.coords ≠ [] := by
      intro hnil
      rw [hnil] at hfour
      cases hfour
    rw [hfour]
    simpa using hne

/-- A text block takes lines up to the next annotation. -/
theorem textTaken_spec (visited : List Nat) : ∀ {rest : List Bytes} {i : Nat}, lines.drop i = rest →
    i ≤ lines.length →
    (textTaken fromChars visited i rest).1.Pairwise (· < ·) ∧
      (∀ j ∈ (textTaken fromChars visited i rest).1,
        i ≤ j ∧ j < (textTaken fromChars visited i rest).2) ∧
      i ≤ (textTaken fromChars visited i rest).2 ∧
      (textTaken fromChars visited i rest).2 ≤ lines.length ∧
      ∀ k, i ≤ k → k < (textTaken fromChars visited i rest).2 → ¬Recognised fromChars lines k := by
  intro rest
  induction rest with
  | nil =>
    intro i _ hi
    exact ⟨List.Pairwise.nil, nofun, Nat.le_refl i, hi,
      fun k hk (hki : k < i) => absurd hk (Nat.not_le_of_lt hki)⟩
  | cons line rest ih =>
    intro i hdrop hi
    obtain ⟨hline, hrest, hlt⟩ := drop_cons_line hdrop
    have hat : annotationAt fromChars lines i = matchAnnotationLine fromChars (stripView line) := by
      rw [annotationAt, hline, Option.bind_some]
    rw [textTaken]
    cases hmatch : (matchAnnotationLine fromChars (stripView line)).isSome with
    | true =>
      rw [if_pos rfl]
      exact ⟨List.Pairwise.nil, nofun, Nat.le_refl i, hi,
        fun k hk (hki : k < i) => absurd hk (Nat.not_le_of_lt hki)⟩
    | false =>
      rw [if_neg Bool.false_ne_true]
      obtain ⟨hsorted, hmem, hle, hlen, hnone⟩ := ih hrest hlt
      have hi' : ¬Recognised fromChars lines i := by
        rw [Recognised, hat, hmatch]
        exact Bool.false_ne_true
      refine ⟨?_, ?_, Nat.le_of_succ_le hle, hlen, ?_⟩
      · dsimp only
        split
        · exact hsorted
        · exact List.Pairwise.cons (fun j hj => (hmem j hj).1) hsorted
      · intro j hj
        dsimp only at hj
        split at hj
        · exact ⟨Nat.le_of_succ_le (hmem j hj).1, (hmem j hj).2⟩
        · rcases List.mem_cons.1 hj with rfl | hj
          · exact ⟨Nat.le_refl _, hle⟩
          · exact ⟨Nat.le_of_succ_le (hmem j hj).1, (hmem j hj).2⟩
      · intro k hk hkr
        by_cases hki : k = i
        · rw [hki]; exact hi'
        · exact hnone k (by omega) hkr

/-- A block as its annotation asks for it. -/
structure Block.Own (fromChars : Bytes → Option (ν × Bytes)) (lines : List Bytes) (b : Block ν) :
    Prop where
  note_eq : annotationAt fromChars lines b.opened = some b.note
  four : opensBlock fromChars lines b.opened = true
  sorted : b.taken.Pairwise (· < ·)
  table : b.note.label = ascii "table" →
    b.taken = tableTaken false (b.opened + 1) (lines.drop (b.opened + 1))
  other : b.note.label ≠ ascii "table" →
    ∀ j ∈ b.taken, SameBlock fromChars lines b.opened j

/-- **Every block is the one its annotation asks for.** -/
theorem scanBlocks_own : ∀ (n i : Nat) (visited : List Nat),
    ∀ b ∈ scanBlocks fromChars lines n i visited, b.Own fromChars lines := by
  intro n
  induction n with
  | zero => intro i visited b hb; cases hb
  | succ n ih =>
    intro i visited b hb
    rw [scanBlocks] at hb
    split at hb
    · cases hb
    rename_i hi
    split at hb
    · exact ih _ _ b hb
    cases hat : annotationAt fromChars lines i with
    | none =>
      rw [hat] at hb
      exact ih _ _ b hb
    | some note =>
      rw [hat] at hb
      dsimp only at hb
      split at hb
      · exact ih _ _ b hb
      rename_i hcoords
      have hopens : opensBlock fromChars lines i = true := by
        rw [opensBlock_of_coords hat]
        simpa using hcoords
      split at hb
      · rename_i htable
        rcases List.mem_cons.1 hb with rfl | hb
        · refine ⟨hat, hopens, tableTaken_sorted.1, fun _ => rfl, fun hne => ?_⟩
          exact absurd (by simpa using htable) hne
        · exact ih _ _ b hb
      · rename_i htable
        rcases List.mem_cons.1 hb with rfl | hb
        · obtain ⟨hsorted, hmem, -, -, hnone⟩ :=
            @textTaken_spec ν fromChars lines visited _ (i + 1) rfl (by omega)
          refine ⟨hat, hopens, hsorted, fun he => absurd (by simpa using he) htable,
            fun _ j hj => ?_⟩
          obtain ⟨hij, hjr⟩ := hmem j hj
          exact ⟨hij, fun k hk hkj => hnone k hk (by omega)⟩
        · exact ih _ _ b hb

/-- The tables keep to their place: what a table annotation takes lies before
the next annotation. -/
def TablesKeep (fromChars : Bytes → Option (ν × Bytes)) (lines : List Bytes) : Prop :=
  ∀ t note, annotationAt fromChars lines t = some note →
    note.label = ascii "table" → opensBlock fromChars lines t = true →
    ∀ j ∈ tableTaken false (t + 1) (lines.drop (t + 1)), SameBlock fromChars lines t j

theorem range'_filter_skip {p : Nat → Bool} {i m len : Nat} (him : i ≤ m) (hm : m ≤ len)
    (hskip : ∀ k, i ≤ k → k < m → p k = false) :
    (List.range' i (len - i)).filter p = (List.range' m (len - m)).filter p := by
  have hsplit : List.range' i (len - i) = List.range' i (m - i) ++ List.range' m (len - m) := by
    have happend := @List.range'_append_1 i (m - i) (len - m)
    rw [show i + (m - i) = m by omega, show m - i + (len - m) = len - i by omega] at happend
    exact happend.symm
  have hnone : (List.range' i (m - i)).filter p = [] := by
    rw [List.filter_eq_nil_iff]
    intro k hk
    rw [List.mem_range'_1] at hk
    rw [hskip k hk.1 (by omega)]
    exact Bool.false_ne_true
  rw [hsplit, List.filter_append, hnone, List.nil_append]

/-- **Where the tables keep to their place, every annotation opens a block.**
No annotation line is visited before its turn. -/
theorem scanBlocks_opened (hkeep : TablesKeep fromChars lines) : ∀ {n i : Nat} {visited : List Nat},
    i ≤ lines.length → lines.length ≤ i + n →
    (∀ v ∈ visited, ¬Recognised fromChars lines v) →
    (scanBlocks fromChars lines n i visited).map Block.opened =
      (List.range' i (lines.length - i)).filter (opensBlock fromChars lines) := by
  intro n
  induction n with
  | zero =>
    intro i visited hi hn _
    rw [show lines.length - i = 0 by omega]
    rfl
  | succ n ih =>
    intro i visited hi hn hvisited
    rw [scanBlocks]
    by_cases hend : lines.length ≤ i
    · rw [if_pos hend, show lines.length - i = 0 by omega]
      rfl
    rw [if_neg hend]
    -- a line that opens nothing
    have hskip : opensBlock fromChars lines i = false →
        (List.range' (i + 1) (lines.length - (i + 1))).filter (opensBlock fromChars lines) =
          (List.range' i (lines.length - i)).filter (opensBlock fromChars lines) := by
      intro hno
      refine (range'_filter_skip (Nat.le_succ i) (by omega) fun k hk hki => ?_).symm
      rw [show k = i by omega, hno]
    have hhead : opensBlock fromChars lines i = true →
        (List.range' i (lines.length - i)).filter (opensBlock fromChars lines) =
          i :: (List.range' (i + 1) (lines.length - (i + 1))).filter
            (opensBlock fromChars lines) := by
      intro hyes
      rw [show lines.length - i = (lines.length - (i + 1)) + 1 by omega, List.range'_succ,
        List.filter_cons_of_pos hyes]
    by_cases hv : i ∈ visited
    · rw [if_pos hv, ih (by omega) (by omega) hvisited]
      apply hskip
      have hnone := hvisited i hv
      rw [Recognised, Option.isSome_iff_ne_none, not_not] at hnone
      rw [opensBlock, hnone]
      rfl
    rw [if_neg hv]
    cases hat : annotationAt fromChars lines i with
    | none =>
      dsimp only
      rw [ih (by omega) (by omega) hvisited]
      apply hskip
      rw [opensBlock, hat]
      rfl
    | some note =>
      dsimp only
      have hopens := opensBlock_of_coords hat
      by_cases hcoords : note.coords.isEmpty = true
      · rw [if_pos hcoords, ih (by omega) (by omega) hvisited]
        exact hskip (by rw [hopens, hcoords]; rfl)
      have hyes : opensBlock fromChars lines i = true := by simpa [hopens] using hcoords
      rw [if_neg hcoords, hhead hyes]
      by_cases htable : (note.label == ascii "table") = true
      · rw [if_pos htable, List.map_cons]
        refine congrArg (i :: ·) (ih (by omega) (by omega) fun v hmem => ?_)
        rcases List.mem_append.1 hmem with hmem | hmem
        · exact hvisited v hmem
        · obtain ⟨hiv, hnone⟩ := hkeep i note hat (by simpa using htable) hyes v hmem
          exact hnone v hiv (Nat.le_refl v)
      · rw [if_neg htable, List.map_cons]
        obtain ⟨-, hmem, hle, hlen, hnone⟩ :=
          @textTaken_spec ν fromChars lines visited _ (i + 1) rfl (by omega)
        refine congrArg (i :: ·) ?_
        rw [ih hlen (by omega) fun v hv' => ?_]
        · refine (range'_filter_skip hle hlen fun k hk hkr => ?_).symm
          have hno := hnone k hk hkr
          rw [Recognised, Option.isSome_iff_ne_none, not_not] at hno
          rw [opensBlock, hno]
          rfl
        · rcases List.mem_append.1 hv' with hv' | hv'
          · exact hvisited v hv'
          · obtain ⟨hiv, hvr⟩ := hmem v hv'
            exact hnone v hiv hvr

end Scan

/-! ## The partition -/

section Partition
variable {ν : Type} (fromChars : Bytes → Option (ν × Bytes)) (lines : List Bytes)

/-- Blocks divide the lines: no line is the content of two, what a block takes
lies between its annotation and the next one, and every annotation line with
four coordinates opens exactly one, in order. -/
structure Partition (blocks : List (Block ν)) : Prop where
  once : blocks.Pairwise fun b b' => ∀ j ∈ b.taken, j ∉ b'.taken
  within : ∀ b ∈ blocks, ∀ j ∈ b.taken, SameBlock fromChars lines b.opened j
  annotated : ∀ b ∈ blocks, annotationAt fromChars lines b.opened = some b.note
  opened_eq : blocks.map Block.opened =
    (List.range lines.length).filter (opensBlock fromChars lines)

/-- A table annotation at line `t` has its table before the next annotation;
or no annotation follows, or no table at all. -/
def TableClosed (t : Nat) : Prop :=
  (∀ k, t < k → ¬Recognised fromChars lines k) ∨ (∀ s, t < s → ¬hasOpen lines s) ∨
    ∃ s c, t < s ∧ s ≤ c ∧ hasOpen lines s ∧ hasClose lines c ∧
      ∀ k, t < k → k ≤ c → ¬Recognised fromChars lines k

variable {fromChars lines}

theorem lt_length_of_recognised {k : Nat} (h : Recognised fromChars lines k) :
    k < lines.length := by
  by_contra hge
  rw [Recognised, annotationAt, List.getElem?_eq_none (by omega)] at h
  cases h

theorem recognised_of_opensBlock {k : Nat} (h : opensBlock fromChars lines k = true) :
    Recognised fromChars lines k := by
  rw [Recognised]
  cases hat : annotationAt fromChars lines k with
  | none => rw [opensBlock, hat] at h; cases h
  | some note => rfl

theorem tableTaken_keeps_iff (t : Nat) :
    (∀ j ∈ tableTaken false (t + 1) (lines.drop (t + 1)), SameBlock fromChars lines t j) ↔
      TableClosed fromChars lines t := by
  have hmem := fun j => @mem_tableTaken _ lines (t + 1) false j rfl
  have hbegun : ∀ s j, t < s → s ≤ j → hasOpen lines s → Begun lines false (t + 1) j :=
    fun s j hs hsj ho => Or.inr ⟨s, hs, hsj, ho⟩
  constructor
  · intro hkeep
    by_cases hrec : ∃ k, t < k ∧ Recognised fromChars lines k
    · by_cases hopen : ∃ s, t < s ∧ hasOpen lines s
      · obtain ⟨k, htk, hk⟩ := hrec
        obtain ⟨s, hts, hs⟩ := hopen
        by_cases hclose : ∃ c, t + 1 ≤ c ∧ Begun lines false (t + 1) c ∧ hasClose lines c
        · -- the first line that ends the table
          classical
          obtain ⟨htc, hbeg, hc⟩ := Nat.find_spec hclose
          have hleast := fun c => @Nat.find_min _ _ hclose c
          generalize Nat.find hclose = c at htc hbeg hc hleast
          have hclen : c < lines.length := by
            obtain ⟨line, hline, -⟩ := hc
            exact (List.getElem?_eq_some_iff.1 hline).1
          have htaken := (hmem c).2 ⟨htc, hclen, hbeg,
            fun c' htc' hlt hbeg' hc' => hleast c' hlt ⟨htc', hbeg', hc'⟩⟩
          rcases hbeg with h | ⟨s', hts', hsc', hs'⟩
          · cases h
          · exact Or.inr (Or.inr ⟨s', c, hts', hsc', hs', hc, (hkeep c htaken).2⟩)
        · -- no line does: the table takes all that follows
          have hslen : s < lines.length := by
            obtain ⟨line, hline, -⟩ := hs
            exact (List.getElem?_eq_some_iff.1 hline).1
          have hklen := lt_length_of_recognised hk
          have htaken := (hmem (max s k)).2 ⟨by omega, by omega,
            hbegun s _ hts (Nat.le_max_left s k) hs,
            fun c htc _ hbeg hc => hclose ⟨c, htc, hbeg, hc⟩⟩
          exact absurd hk ((hkeep _ htaken).2 k htk (Nat.le_max_right s k))
      · exact Or.inr (Or.inl fun s hs ho => hopen ⟨s, hs, ho⟩)
    · exact Or.inl fun k hk hr => hrec ⟨k, hk, hr⟩
  · intro hclosed j hj
    obtain ⟨htj, hjlen, hbeg, hnone⟩ := (hmem j).1 hj
    refine ⟨htj, fun k htk hkj => ?_⟩
    rcases hclosed with hrec | hopen | ⟨s, c, hts, hsc, hs, hc, hrec⟩
    · exact hrec k htk
    · rcases hbeg with h | ⟨s, hts, hsj, hs⟩
      · cases h
      · exact absurd hs (hopen s hts)
    · have hjc : j ≤ c := by
        by_contra hlt
        exact hnone c (by omega) (by omega) (hbegun s c hts hsc hs) hc
      exact hrec k htk (by omega)

/-- **The blocks divide the lines exactly where every table is closed before
the next annotation.** For every response and every way to read a number: no
line is the content of two blocks, a block's content lies between its own
annotation and the next, and every annotation with four coordinates opens
exactly one block, in order, if and only if each table annotation with four
coordinates is followed by `<table` and `</table>` before the next annotation
line, or by no annotation line, or by no `<table` at all. -/
theorem deepseekBlocks_partition_iff (fromChars : Bytes → Option (ν × Bytes)) (text : Bytes) :
    Partition fromChars (text.splitOn 0x0A) (deepseekBlocks fromChars text) ↔
      ∀ t note, annotationAt fromChars (text.splitOn 0x0A) t = some note →
        note.label = ascii "table" → note.coords.length = 4 →
        TableClosed fromChars (text.splitOn 0x0A) t := by
  rw [deepseekBlocks]
  generalize text.splitOn 0x0A = lines
  have hown := @scanBlocks_own ν fromChars lines lines.length 0 []
  constructor
  · intro hpart t note hat htable hfour
    have hopens : opensBlock fromChars lines t = true := by
      rw [opensBlock, hat, Option.any_some, hfour]
      rfl
    have hmem : t ∈ (scanBlocks fromChars lines lines.length 0 []).map Block.opened := by
      rw [hpart.opened_eq, List.mem_filter, List.mem_range]
      exact ⟨lt_length_of_recognised (recognised_of_opensBlock hopens), hopens⟩
    obtain ⟨b, hb, rfl⟩ := List.mem_map.1 hmem
    have hnote : b.note = note :=
      Option.some.inj ((hown b hb).note_eq.symm.trans hat)
    rw [← tableTaken_keeps_iff, ← (hown b hb).table (hnote ▸ htable)]
    exact hpart.within b hb
  · intro hclosed
    have hkeep : TablesKeep fromChars lines := by
      intro t note hat htable hopens
      rw [tableTaken_keeps_iff]
      rw [opensBlock, hat, Option.any_some, beq_iff_eq] at hopens
      exact hclosed t note hat htable hopens
    have hopened : (scanBlocks fromChars lines lines.length 0 []).map Block.opened =
        (List.range lines.length).filter (opensBlock fromChars lines) := by
      rw [scanBlocks_opened hkeep (Nat.zero_le _) (by omega) (fun v hv => by cases hv),
        List.range_eq_range']
      rfl
    have hwithin : ∀ b ∈ scanBlocks fromChars lines lines.length 0 [],
        ∀ j ∈ b.taken, SameBlock fromChars lines b.opened j := by
      intro b hb j hj
      by_cases htable : b.note.label = ascii "table"
      · rw [(hown b hb).table htable] at hj
        exact hkeep b.opened b.note (hown b hb).note_eq htable (hown b hb).four j hj
      · exact (hown b hb).other htable j hj
    refine ⟨?_, hwithin, fun b hb => (hown b hb).note_eq, hopened⟩
    have hsorted : (scanBlocks fromChars lines lines.length 0 []).Pairwise
        fun b b' => b.opened < b'.opened := by
      rw [← List.pairwise_map (R := (· < ·)) (f := Block.opened), hopened]
      exact List.pairwise_lt_range.filter _
    refine hsorted.imp_of_mem fun {b b'} hb hb' hlt j hj hj' => ?_
    exact (hwithin b hb j hj).2 b'.opened hlt (Nat.le_of_lt (hwithin b' hb' j hj').1)
      (recognised_of_opensBlock (hown b' hb').four)

end Partition

/-- `std::from_chars` on digits. -/
def digitsFromChars (piece : Bytes) : Option (Nat × Bytes) :=
  match piece.takeWhile isDigit with
  | [] => none
  | digits => some (ofDigits digits, piece.dropWhile isDigit)

/-- A table annotation without its table, and one with: the table's line is
the content of both. -/
def sampleResponse : Bytes :=
  ascii "table[[1,2,3,4]]\ntext[[5,6,7,8]]\nhi\ntable[[1,6,7,9]]\n<table></table>"

theorem deepseekBlocks_shares_line :
    ¬Partition digitsFromChars (sampleResponse.splitOn 0x0A)
      (deepseekBlocks digitsFromChars sampleResponse) := by
  intro h
  exact absurd h.once (by decide)

end VlmConvert.L3.Deepseek

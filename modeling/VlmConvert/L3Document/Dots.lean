import VlmConvert.Core.Json

/-!
# Truncated dots.ocr output

`clean_json` of `src/mapping/dots.cpp`: the model's output is a JSON array of
objects that may break off anywhere, and "a truncated array is cut after its
last complete object and closed". The code looks for the last ']' or '}' of
the text, whatever it belongs to.

`ArrayText` is the text of an array of objects with any blanks; a prefix of it
holds some finished elements and what there is of the next one.

Results:

* `prefix_split`: the finished elements of a prefix and the rest.
* `cleanJson_finished`, `cleanJson_broken`: when the elements come back, and
  when nothing does.
* `cleanJson_recovers_iff`: exactly when they do.
-/
namespace VlmConvert.L3.Dots

open Bytes Json

/-! ## The repair -/

/-- Up to the last `c`; `none` is `npos`. -/
def upToLast (c : UInt8) (l : Bytes) : Option Bytes :=
  match l.rdropWhile (· != c) with
  | [] => none
  | kept => some kept

/-- mirrors src/mapping/dots.cpp:23-43 -/
def cleanJson (raw : Bytes) : Bytes :=
  match findByte 0x5B raw with
  | none => ascii "[]"
  | some (_, text) =>
    let shown := text.rdropWhile isSpace
    if shown.getLast? == some 0x5D then text
    else
      match upToLast 0x7D shown with
      | none => ascii "[]"
      | some kept => kept ++ [0x5D]

/-- The elements a response is mapped from: those of the array it parses to,
or none. The parser accepts the JSON texts and nothing else.
mirrors src/mapping/dots.cpp:138-147 -/
def DotsElements (text : Bytes) (elements : List Json) : Prop :=
  if (trim text).isEmpty then elements = []
  else IsJson (cleanJson text) (.arr elements) ∨
    (∀ others, ¬IsJson (cleanJson text) (.arr others)) ∧ elements = []

/-! ## The text of an array of objects -/

/-- An object and what stands between it and the one before. -/
structure ArrayElement where
  sep : Bytes
  text : Bytes
  value : Json
  written : JsonText (.value value) text
  object : value.IsObject

def ArrayElement.chunk (e : ArrayElement) : Bytes := e.sep ++ e.text

structure ArrayText where
  lead : Bytes
  first : ArrayElement
  others : List ArrayElement
  tail : Bytes
  lead_blank : Blank lead
  first_sep : Blank first.sep
  others_sep : ∀ e ∈ others, ∃ w w', Blank w ∧ Blank w' ∧ e.sep = w ++ 0x2C :: w'
  tail_eq : ∃ w w', Blank w ∧ Blank w' ∧ tail = w ++ 0x5D :: w'

namespace ArrayText

variable (a : ArrayText)

def elements : List ArrayElement := a.first :: a.others

def text : Bytes := a.lead ++ 0x5B :: (a.elements.flatMap ArrayElement.chunk ++ a.tail)

end ArrayText

/-- The elements that are whole in the first `n` bytes. -/
def finishedIn : Nat → List ArrayElement → List ArrayElement
  | _, [] => []
  | n, e :: es =>
    if e.chunk.length ≤ n then e :: finishedIn (n - e.chunk.length) es else []

/-- The elements that a prefix of the text holds as a whole. -/
def ArrayText.finished (a : ArrayText) (n : Nat) : List ArrayElement :=
  finishedIn (n - (a.lead.length + 1)) a.elements

/-- What a prefix of the text holds behind them. -/
def ArrayText.unfinished (a : ArrayText) (n : Nat) : Bytes :=
  (a.text.take n).drop
    (a.lead.length + 1 + ((a.finished n).flatMap ArrayElement.chunk).length)

/-- All elements are there; or of the next one there is no '}', and the text
does not break off behind a ']' of it. -/
def ArrayText.Recoverable (a : ArrayText) (n : Nat) : Prop :=
  (a.finished n).length = a.elements.length ∨
    0x7D ∉ a.unfinished n ∧ ((a.unfinished n).rdropWhile isSpace).getLast? ≠ some 0x5D

section Elements

/-- The items of an array are elements with commas between them. -/
theorem exists_elements {part : Part} {t : Bytes} (h : JsonText part t) : ∀ {vs : List Json},
    part = .items vs → (∀ v ∈ vs, v.IsObject) →
    ∃ (first : ArrayElement) (others : List ArrayElement) (w : Bytes), Blank first.sep ∧
      (∀ e ∈ others, ∃ w w', Blank w ∧ Blank w' ∧ e.sep = w ++ 0x2C :: w') ∧ Blank w ∧
      t = first.chunk ++ (others.flatMap ArrayElement.chunk ++ w) ∧
      vs = first.value :: others.map ArrayElement.value := by
  induction h with
  | @item v w t w' hw ht hw' _ =>
    intro vs hvs hobject
    cases hvs
    refine ⟨⟨w, t, v, ht, hobject v List.mem_cons_self⟩, [], w', hw, nofun, hw', ?_, rfl⟩
    simp [ArrayElement.chunk]
  | @items v rest w t w' more hw ht hw' hmore _ ih =>
    intro vs hvs hobject
    cases hvs
    obtain ⟨first, others, w'', hfirst, hothers, hw'', htext, hvalues⟩ :=
      ih rfl fun v' hv' => hobject v' (List.mem_cons_of_mem v hv')
    refine ⟨⟨w, t, v, ht, hobject v List.mem_cons_self⟩,
      { first with sep := w' ++ 0x2C :: first.sep } :: others, w'', hw, ?_, hw'', ?_, ?_⟩
    · intro e he
      rcases List.mem_cons.1 he with rfl | he
      · exact ⟨w', first.sep, hw', hfirst, rfl⟩
      · exact hothers e he
    · rw [htext]
      simp [ArrayElement.chunk]
    · exact congrArg (v :: ·) hvalues
  | _ => intro vs hvs; cases hvs

/-- **Every JSON text of an array of objects is an `ArrayText`.** -/
theorem exists_arrayText {text : Bytes} {vs : List Json} (h : IsJson text (.arr vs))
    (hne : vs ≠ []) (hobject : ∀ v ∈ vs, v.IsObject) :
    ∃ a : ArrayText, a.text = text ∧ a.elements.map ArrayElement.value = vs := by
  obtain ⟨w, t, w', hw, ht, hw', rfl⟩ := h
  cases ht with
  | emptyArr _ => exact absurd rfl hne
  | arr hitems =>
    obtain ⟨first, others, x, hfirst, hothers, hx, rfl, hvalues⟩ :=
      exists_elements hitems rfl hobject
    refine ⟨⟨w, first, others, x ++ 0x5D :: w', hw, hfirst, hothers, x, w', hx, hw', rfl⟩, ?_,
      hvalues.symm⟩
    simp [ArrayText.text, ArrayText.elements]

theorem ArrayElement.text_ends (e : ArrayElement) : ∃ front, e.text = front ++ [0x7D] := by
  obtain ⟨sep, text, value, written, object⟩ := e
  cases written with
  | @emptyObj w _ => exact ⟨0x7B :: w, rfl⟩
  | @obj ms t _ => exact ⟨0x7B :: t, rfl⟩
  | _ => exact object.elim

theorem ArrayElement.chunk_pos (e : ArrayElement) : 0 < e.chunk.length := by
  obtain ⟨front, hfront⟩ := e.text_ends
  rw [ArrayElement.chunk, hfront]
  simp

/-- Cutting a row of chunks: the whole ones, and a part of the next or of
what follows them all. -/
theorem chunks_split : ∀ (es : List ArrayElement) (tail : Bytes) (m : Nat), ∃ todo rest,
    es = finishedIn m es ++ todo ∧
      (es.flatMap ArrayElement.chunk ++ tail).take m =
        (finishedIn m es).flatMap ArrayElement.chunk ++ rest ∧
      (todo = [] ∧ rest <+: tail ∨
        ∃ e more, todo = e :: more ∧ rest <+: e.chunk ∧ rest ≠ e.chunk) := by
  intro es
  induction es with
  | nil => intro tail m; exact ⟨[], tail.take m, rfl, rfl, Or.inl ⟨rfl, List.take_prefix m tail⟩⟩
  | cons e es ih =>
    intro tail m
    rw [finishedIn, List.flatMap_cons, List.append_assoc]
    by_cases hwhole : e.chunk.length ≤ m
    · obtain ⟨todo, rest, hsplit, htake, hrest⟩ := ih tail (m - e.chunk.length)
      rw [if_pos hwhole]
      refine ⟨todo, rest, ?_, ?_, hrest⟩
      · rw [List.cons_append, ← hsplit]
      · rw [List.take_append, List.take_of_length_le hwhole, htake, List.flatMap_cons,
          List.append_assoc]
    · rw [if_neg hwhole]
      refine ⟨e :: es, e.chunk.take m, rfl, ?_, Or.inr ⟨e, es, rfl, List.take_prefix m _, ?_⟩⟩
      · rw [List.take_append_of_le_length (by omega)]
        rfl
      · intro heq
        have hlen := congrArg List.length heq
        rw [List.length_take] at hlen
        omega

end Elements

section Prefix
variable (a : ArrayText) (n : Nat)

/-- A prefix with a finished element: the finished ones and the rest. -/
theorem prefix_split (h : a.finished n ≠ []) :
    a.text.take n =
        a.lead ++ 0x5B :: ((a.finished n).flatMap ArrayElement.chunk ++ a.unfinished n) ∧
      ∃ todo, a.elements = a.finished n ++ todo ∧
        (todo = [] ∧ a.unfinished n <+: a.tail ∨
          ∃ e more, todo = e :: more ∧ a.unfinished n <+: e.chunk ∧ a.unfinished n ≠ e.chunk) := by
  have hn : a.lead.length + 1 ≤ n := by
    by_contra hshort
    have hzero : n - (a.lead.length + 1) = 0 := by omega
    have hpos := a.first.chunk_pos
    apply h
    rw [ArrayText.finished, hzero, ArrayText.elements, finishedIn, if_neg (by omega)]
  obtain ⟨todo, rest, hsplit, htake, hrest⟩ :=
    chunks_split a.elements a.tail (n - (a.lead.length + 1))
  have htext : a.text.take n =
      a.lead ++ 0x5B :: ((a.finished n).flatMap ArrayElement.chunk ++ rest) := by
    have hlead : a.text =
      (a.lead ++ [0x5B]) ++ (a.elements.flatMap ArrayElement.chunk ++ a.tail) := by
      rw [ArrayText.text, List.append_assoc]; rfl
    have hlen : (a.lead ++ [0x5B]).length = a.lead.length + 1 := by simp
    rw [hlead, List.take_append, List.take_of_length_le (by omega), hlen, htake, List.append_assoc]
    rfl
  have hunfinished : a.unfinished n = rest := by
    have hfront : a.lead ++ 0x5B :: ((a.finished n).flatMap ArrayElement.chunk ++ rest) =
        (a.lead ++ 0x5B :: (a.finished n).flatMap ArrayElement.chunk) ++ rest := by simp
    have hlen : a.lead.length + 1 + ((a.finished n).flatMap ArrayElement.chunk).length =
        (a.lead ++ 0x5B :: (a.finished n).flatMap ArrayElement.chunk).length := by simp; omega
    rw [ArrayText.unfinished, htext, hfront, hlen, List.drop_left]
  rw [hunfinished]
  exact ⟨htext, todo, hsplit, hrest⟩

end Prefix

/-! ## What the repair does -/

section Repair

/-- Text behind a byte that stays. -/
theorem rdropWhile_behind {p : UInt8 → Bool} {c : UInt8} (hc : p c = false) (front rest : Bytes) :
    (front ++ c :: rest).rdropWhile p = front ++ c :: rest.rdropWhile p := by
  unfold List.rdropWhile
  rw [List.reverse_append, List.reverse_cons, List.append_assoc, List.dropWhile_append]
  split
  · rename_i hempty
    rw [List.isEmpty_iff.1 hempty]
    simp [hc]
  · simp

theorem getLast?_behind {c : UInt8} (front rest : Bytes) :
    (front ++ c :: rest).getLast? = some (rest.getLast?.getD c) := by
  rw [List.getLast?_append, List.getLast?_cons]
  rfl

/-- The repair behind the last finished element, whose '}' stays. -/
theorem cleanJson_eq {lead front rest : Bytes} (hlead : Blank lead) :
    cleanJson (lead ++ 0x5B :: (front ++ 0x7D :: rest)) =
      if (rest.rdropWhile isSpace).getLast? = some 0x5D then 0x5B :: (front ++ 0x7D :: rest)
      else 0x5B :: (front ++ 0x7D :: (rest.rdropWhile isSpace).rdropWhile (· != 0x7D)) ++
        [0x5D] := by
  have hfind : (0x5B : UInt8) ∉ lead := by
    intro hmem
    exact absurd (hlead _ hmem) (by decide)
  have hshown : (0x5B :: (front ++ 0x7D :: rest)).rdropWhile isSpace =
      (0x5B :: front) ++ 0x7D :: rest.rdropWhile isSpace := by
    rw [← List.cons_append]
    exact rdropWhile_behind (by decide) _ _
  have hkept : upToLast 0x7D ((0x5B :: front) ++ 0x7D :: rest.rdropWhile isSpace) =
      some ((0x5B :: front) ++ 0x7D :: (rest.rdropWhile isSpace).rdropWhile (· != 0x7D)) := by
    rw [upToLast, rdropWhile_behind (by decide)]
    rfl
  unfold cleanJson
  rw [findByte_append hfind]
  simp only [hshown, hkept, getLast?_behind]
  cases hlast : (rest.rdropWhile isSpace).getLast? with
  | none => simp
  | some b =>
    by_cases hb : b = 0x5D
    · simp [hb]
    · simp [hb]

theorem rdropWhile_blank {w : Bytes} (h : Blank w) : w.rdropWhile isSpace = [] :=
  List.rdropWhile_eq_nil_iff.2 fun b hb => isSpace_of_isBlank (h b hb)

theorem blank_part {w p : Bytes} (h : Blank w) (hp : p <+: w) : Blank p :=
  fun b hb => h b (hp.subset hb)

theorem chunks_end {es : List ArrayElement} (h : es ≠ []) :
    ∃ front, es.flatMap ArrayElement.chunk = front ++ [0x7D] := by
  obtain ⟨init, e, rfl⟩ := List.eq_nil_or_concat es |>.resolve_left h
  obtain ⟨front, hfront⟩ := e.text_ends
  refine ⟨init.flatMap ArrayElement.chunk ++ (e.sep ++ front), ?_⟩
  rw [List.concat_eq_append, List.flatMap_append, List.flatMap_singleton, ArrayElement.chunk,
    hfront]
  simp

/-- Elements with commas between them are the items of an array. -/
theorem items_text {w : Bytes} (hw : Blank w) : ∀ {es : List ArrayElement} {v : Json} {u t : Bytes},
    (∀ e ∈ es, ∃ w w', Blank w ∧ Blank w' ∧ e.sep = w ++ 0x2C :: w') → Blank u →
    JsonText (.value v) t → JsonText (.items (v :: es.map ArrayElement.value))
      (u ++ (t ++ (es.flatMap ArrayElement.chunk ++ w))) := by
  intro es
  induction es with
  | nil => intro v u t _ hu ht; exact .item hu ht hw
  | cons e es ih =>
    intro v u t hsep hu ht
    obtain ⟨x, y, hx, hy, he⟩ := hsep e List.mem_cons_self
    have hmore := ih (fun e' he' => hsep e' (List.mem_cons_of_mem e he')) hy e.written
    have htext : u ++ (t ++ ((e :: es).flatMap ArrayElement.chunk ++ w)) =
        u ++ (t ++ (x ++ 0x2C :: (y ++ (e.text ++ (es.flatMap ArrayElement.chunk ++ w))))) := by
      rw [List.flatMap_cons, ArrayElement.chunk, he]
      simp only [List.append_assoc, List.cons_append]
    rw [htext]
    exact .items hu ht hx hmore

variable {a : ArrayText} {n : Nat}

theorem finished_cons (h : a.finished n ≠ []) :
    ∃ others, a.finished n = a.first :: others ∧ others <+: a.others := by
  obtain ⟨-, todo, hsplit, -⟩ := prefix_split a n h
  cases hfin : a.finished n with
  | nil => exact absurd hfin h
  | cons e es =>
    rw [hfin, ArrayText.elements, List.cons_append, List.cons.injEq] at hsplit
    exact ⟨es, by rw [hsplit.1], ⟨todo, hsplit.2.symm⟩⟩

/-- The finished elements in brackets are a JSON array. -/
theorem isJson_finished (h : a.finished n ≠ []) {w q : Bytes} (hw : Blank w) (hq : Blank q) :
    IsJson (0x5B :: ((a.finished n).flatMap ArrayElement.chunk ++ w) ++ 0x5D :: q)
      (.arr ((a.finished n).map ArrayElement.value)) := by
  obtain ⟨others, hfin, hothers⟩ := finished_cons h
  have hitems := items_text hw (fun e he => a.others_sep e (hothers.subset he)) a.first_sep
    a.first.written
  rw [hfin]
  refine ⟨[], _, q, fun b hb => (List.not_mem_nil hb).elim, .arr hitems, hq, ?_⟩
  rw [List.flatMap_cons, ArrayElement.chunk]
  simp only [List.nil_append, List.append_assoc, List.cons_append]

/-- **The finished elements come back.** -/
theorem cleanJson_finished (h : a.finished n ≠ []) (hrec : a.Recoverable n) :
    IsJson (cleanJson (a.text.take n)) (.arr ((a.finished n).map ArrayElement.value)) := by
  obtain ⟨htext, todo, hsplit, hrest⟩ := prefix_split a n h
  obtain ⟨front, hfront⟩ := chunks_end h
  have hnil : Blank [] := fun b hb => (List.not_mem_nil hb).elim
  have hclean := @cleanJson_eq a.lead front (a.unfinished n) a.lead_blank
  rw [htext, hfront, List.append_assoc, List.singleton_append, hclean]
  -- cut behind the last finished element
  have hcut : ∀ {more : Bytes}, more = [] →
      IsJson (0x5B :: (front ++ 0x7D :: more) ++ [0x5D])
        (.arr ((a.finished n).map ArrayElement.value)) := by
    intro more hmore
    have hjson := isJson_finished h hnil hnil
    rw [hfront] at hjson
    subst hmore
    simpa using hjson
  rcases hrest with ⟨htodo, htail⟩ | ⟨e, more, htodo, hpart, hproper⟩
  · obtain ⟨w, w', hw, hw', htaileq⟩ := a.tail_eq
    rw [htaileq] at htail
    -- in front of the closing bracket, or behind it
    have hcases : Blank (a.unfinished n) ∨
        ∃ q, Blank q ∧ a.unfinished n = w ++ 0x5D :: q := by
      rcases prefix_append_or htail with hblank | ⟨q, heq, hq⟩
      · exact Or.inl (blank_part hw hblank)
      · rcases List.prefix_cons_iff.1 hq with rfl | ⟨q', rfl, hq'⟩
        · rw [List.append_nil] at heq
          exact Or.inl (heq ▸ hw)
        · exact Or.inr ⟨q', blank_part hw' hq', heq⟩
    rcases hcases with hblank | ⟨q, hq, heq⟩
    · rw [rdropWhile_blank hblank, if_neg (by simp)]
      exact hcut rfl
    · have hshown : (a.unfinished n).rdropWhile isSpace = w ++ [0x5D] := by
        rw [heq, rdropWhile_behind (by decide), rdropWhile_blank hq]
      rw [hshown, if_pos (by simp), heq]
      have hjson := isJson_finished h hw hq
      rw [hfront] at hjson
      simpa using hjson
  · have hshort : (a.finished n).length ≠ a.elements.length := by
      rw [hsplit, htodo, List.length_append, List.length_cons]
      omega
    obtain ⟨hbrace, hlast⟩ := hrec.resolve_left hshort
    rw [if_neg hlast]
    refine hcut (List.rdropWhile_eq_nil_iff.2 fun b hb => ?_)
    have hmem : b ∈ a.unfinished n := (List.rdropWhile_prefix isSpace _).subset hb
    rw [bne_iff_ne]
    rintro rfl
    exact hbrace hmem

theorem steady_chunk {e : ArrayElement} (hsep : Steady e.sep) : Steady e.chunk :=
  hsep.append (steady_of_jsonText e.written)

theorem steady_comma {sep : Bytes} (h : ∃ w w', Blank w ∧ Blank w' ∧ sep = w ++ 0x2C :: w') :
    Steady sep := by
  obtain ⟨w, w', hw, hw', rfl⟩ := h
  exact (steady_blank hw).append (steady_colon 0x2C (by decide) (steady_blank hw'))

theorem steady_chunks : ∀ {es : List ArrayElement}, (∀ e ∈ es, Steady e.sep) →
    Steady (es.flatMap ArrayElement.chunk) := by
  intro es
  induction es with
  | nil => intro _; exact .nil
  | cons e es ih =>
    intro h
    rw [List.flatMap_cons]
    exact (steady_chunk (h e List.mem_cons_self)).append
      (ih fun e' he' => h e' (List.mem_cons_of_mem e he'))

theorem steady_sep {e : ArrayElement} (he : e ∈ a.elements) : Steady e.sep := by
  rcases List.mem_cons.1 he with rfl | he
  · exact steady_blank a.first_sep
  · exact steady_comma (a.others_sep e he)

/-- Bytes of a separator are blanks and the comma. -/
theorem sep_bytes {e : ArrayElement} (he : e ∈ a.elements) :
    ∀ b ∈ e.sep, isBlank b = true ∨ b = 0x2C := by
  intro b hb
  rcases List.mem_cons.1 he with rfl | he
  · exact Or.inl (a.first_sep b hb)
  · obtain ⟨w, w', hw, hw', heq⟩ := a.others_sep e he
    rw [heq, List.mem_append, List.mem_cons] at hb
    rcases hb with hb | rfl | hb
    · exact Or.inl (hw b hb)
    · exact Or.inr rfl
    · exact Or.inl (hw' b hb)

/-- Inside an unfinished element nothing is closed: a part of it that holds a
'}' or a ']' is two deep. -/
theorem part_deep {e : ArrayElement} (he : e ∈ a.elements) {p : Bytes} (hp : p <+: e.chunk)
    (hproper : p ≠ e.chunk) {b : UInt8} (hb : b ∈ p) (hclose : b = 0x7D ∨ b = 0x5D) :
    2 ≤ (Json.scan ⟨1, .plain⟩ p).depth := by
  rcases prefix_append_or hp with hsep | ⟨q, rfl, hq⟩
  · rcases sep_bytes he b (hsep.subset hb) with hblank | rfl
    · rcases hclose with rfl | rfl <;> exact absurd hblank (by decide)
    · rcases hclose with hc | hc <;> exact absurd hc (by decide)
  · rw [scan_append, (steady_sep he).back]
    refine object_unclosed e.written e.object 1 hq ?_ ?_
    · rintro rfl
      rw [List.append_nil] at hb
      rcases sep_bytes he b hb with hblank | rfl
      · rcases hclose with rfl | rfl <;> exact absurd hblank (by decide)
      · rcases hclose with hc | hc <;> exact absurd hc (by decide)
    · rintro rfl
      exact hproper rfl

/-- Where nothing is closed, one more ']' does not make a JSON text. -/
theorem not_isJson_deep {l : Bytes} (h : 2 ≤ (Json.scan ⟨0, .plain⟩ l).depth) (v : Json) :
    ¬IsJson l v ∧ ¬IsJson (l ++ [0x5D]) v := by
  constructor
  · intro hjson
    rw [hjson.scan] at h
    exact absurd h (by decide)
  · intro hjson
    have hscan := hjson.scan 0
    rw [scan_append] at hscan
    generalize Json.scan ⟨0, .plain⟩ l = s at h hscan
    obtain ⟨depth, mode⟩ := s
    cases mode with
    | plain =>
      have hdepth : depth - 1 = 0 := congrArg Scan.depth hscan
      have hdeep : 2 ≤ depth := h
      omega
    | string =>
      have hmode : ScanMode.string = ScanMode.plain := congrArg Scan.mode hscan
      cases hmode
    | escape =>
      have hmode : ScanMode.string = ScanMode.plain := congrArg Scan.mode hscan
      cases hmode

/-- **Nothing comes back**: the result is no JSON text at all. -/
theorem cleanJson_broken (h : a.finished n ≠ []) (hrec : ¬a.Recoverable n) (v : Json) :
    ¬IsJson (cleanJson (a.text.take n)) v := by
  obtain ⟨htext, todo, hsplit, hrest⟩ := prefix_split a n h
  obtain ⟨front, hfront⟩ := chunks_end h
  rcases hrest with ⟨htodo, -⟩ | ⟨e, more, htodo, hpart, hproper⟩
  · refine absurd (Or.inl ?_) hrec
    rw [hsplit, htodo, List.append_nil]
  have he : e ∈ a.elements := by rw [hsplit, htodo]; simp
  -- the finished elements leave the scan one deep
  have hdone : Json.scan ⟨0, .plain⟩ (0x5B :: (a.finished n).flatMap ArrayElement.chunk) =
      ⟨1, .plain⟩ := by
    refine (steady_chunks fun e' he' => ?_).back 1
    refine steady_sep (a := a) ?_
    rw [hsplit]
    exact List.mem_append_left _ he'
  have hdeep : ∀ {p : Bytes} {b : UInt8}, p <+: a.unfinished n → b ∈ p → b = 0x7D ∨ b = 0x5D →
      2 ≤ (Json.scan ⟨0, .plain⟩ (0x5B :: (front ++ 0x7D :: p))).depth := by
    intro p b hp hb hclose
    have hwhole : 0x5B :: (front ++ 0x7D :: p) =
        (0x5B :: (a.finished n).flatMap ArrayElement.chunk) ++ p := by rw [hfront]; simp
    rw [hwhole, scan_append, hdone]
    refine part_deep he (hp.trans hpart) ?_ hb hclose
    rintro rfl
    exact hproper (hpart.eq_of_length_le hp.length_le)
  rw [htext, hfront, List.append_assoc, List.singleton_append, cleanJson_eq a.lead_blank]
  have hshown : (a.unfinished n).rdropWhile isSpace <+: a.unfinished n :=
    List.rdropWhile_prefix isSpace _
  by_cases hlast : ((a.unfinished n).rdropWhile isSpace).getLast? = some 0x5D
  · rw [if_pos hlast]
    exact (not_isJson_deep (hdeep List.prefix_rfl (hshown.subset (List.mem_of_getLast? hlast))
      (Or.inr rfl)) v).1
  · rw [if_neg hlast]
    have hbrace : 0x7D ∈ a.unfinished n := by
      by_contra hno
      exact hrec (Or.inr ⟨hno, hlast⟩)
    have hkept : 0x7D ∈ ((a.unfinished n).rdropWhile isSpace).rdropWhile (· != 0x7D) := by
      obtain ⟨x, y, hxy⟩ := List.append_of_mem hbrace
      rw [hxy, rdropWhile_behind (by decide), rdropWhile_behind (by decide)]
      simp
    exact (not_isJson_deep (hdeep ((List.rdropWhile_prefix _ _).trans hshown) hkept
      (Or.inl rfl)) v).2

end Repair

/-! ## Recovery -/

/-- **The finished elements of a prefix come back exactly where the code's
search finds the last of them.** For every array of objects and every prefix
with a finished element: the repaired text is the JSON array of the finished
elements, and they are what is mapped, if and only if all elements are there
or the unfinished one has no '}' and does not break off behind a ']'. -/
theorem cleanJson_recovers_iff (a : ArrayText) (n : Nat) (h : a.finished n ≠ []) :
    IsJson (cleanJson (a.text.take n)) (.arr ((a.finished n).map ArrayElement.value)) ∧
        DotsElements (a.text.take n) ((a.finished n).map ArrayElement.value) ↔
      a.Recoverable n := by
  constructor
  · intro hjson
    by_contra hrec
    exact cleanJson_broken h hrec _ hjson.1
  · intro hrec
    have hjson := cleanJson_finished h hrec
    refine ⟨hjson, ?_⟩
    have hsome : (trim (a.text.take n)).isEmpty = false := by
      by_contra hempty
      rw [Bool.not_eq_false, List.isEmpty_iff] at hempty
      have hvisible := visible_trim (a.text.take n)
      rw [hempty, (prefix_split a n h).1, visible_append] at hvisible
      simp [visible, isSpace] at hvisible
    rw [DotsElements, hsome, if_neg Bool.false_ne_true]
    exact Or.inl hjson

/-! ## A response cut short -/

/-- A number of one digit. -/
theorem jsonText_digit {d : UInt8} (h : isDigit d = true) : JsonText (.value (.num [d])) [d] :=
  .num (@Number.mk [] [d] [] [] (Or.inl rfl) ⟨List.cons_ne_nil _ _, by simp [h]⟩
    (fun hzero => by simpa using hzero) (Or.inl rfl) (Or.inl rfl))

/-- An object with one member "a". -/
theorem jsonText_member {v : Json} {t : Bytes} (h : JsonText (.value v) t) :
    JsonText (.value (.obj [([0x61], v)])) ([0x7B, 0x22, 0x61, 0x22, 0x3A] ++ (t ++ [0x7D])) := by
  have hnil : Blank [] := fun b hb => (List.not_mem_nil hb).elim
  have hkey : StringBody [0x61] :=
    .char (Char.ofNat 0x61) (by decide) (by decide) (by decide) .nil
  have hobject := JsonText.obj (JsonText.member hnil hkey hnil (JsonText.item hnil h hnil))
  simpa [quoted] using hobject

/-- The array of {"a":1} and {"a":[2]}. -/
def sampleArray : ArrayText where
  lead := []
  first := ⟨[], _, _, jsonText_member (jsonText_digit (show isDigit 0x31 = true by decide)),
    trivial⟩
  others := [⟨[0x2C], _, _, jsonText_member (JsonText.arr (JsonText.item
    (fun b hb => (List.not_mem_nil hb).elim) (jsonText_digit (show isDigit 0x32 = true by decide))
    (fun b hb => (List.not_mem_nil hb).elim))), trivial⟩]
  tail := [0x5D]
  lead_blank := fun b hb => (List.not_mem_nil hb).elim
  first_sep := fun b hb => (List.not_mem_nil hb).elim
  others_sep := by
    intro e he
    rw [List.mem_singleton.1 he]
    exact ⟨[], [], fun b hb => (List.not_mem_nil hb).elim,
      fun b hb => (List.not_mem_nil hb).elim, rfl⟩
  tail_eq := ⟨[], [], fun b hb => (List.not_mem_nil hb).elim,
    fun b hb => (List.not_mem_nil hb).elim, rfl⟩

theorem sampleArray_finished {n : Nat} (h : (sampleArray.finished n).length = 1) :
    sampleArray.finished n ≠ [] := by
  intro hnil
  rw [hnil] at h
  cases h

/-- Cut inside the name of the second element's member. -/
theorem cleanJson_recovers_sample :
    IsJson (cleanJson (sampleArray.text.take 12))
        (.arr ((sampleArray.finished 12).map ArrayElement.value)) ∧
      DotsElements (sampleArray.text.take 12) ((sampleArray.finished 12).map ArrayElement.value) :=
  (cleanJson_recovers_iff sampleArray 12 (sampleArray_finished (by decide))).2
    (Or.inr ⟨by decide, by decide⟩)

/-- Cut behind the ']' of the second element's value: the text stays as it is,
and no JSON parser takes it. -/
theorem cleanJson_loses_finished :
    (sampleArray.finished 17).length = 1 ∧
      ¬IsJson (cleanJson (sampleArray.text.take 17))
        (.arr ((sampleArray.finished 17).map ArrayElement.value)) ∧
      ¬DotsElements (sampleArray.text.take 17)
        ((sampleArray.finished 17).map ArrayElement.value) := by
  have hbroken : ∀ v, ¬IsJson (cleanJson (sampleArray.text.take 17)) v := by
    intro v hjson
    exact absurd (hjson.scan 0) (by decide)
  refine ⟨by decide, hbroken _, ?_⟩
  rw [DotsElements, if_neg (by decide)]
  rintro (hjson | ⟨-, hnil⟩)
  · exact hbroken _ hjson
  · exact absurd (congrArg List.length hnil) (by decide)

end VlmConvert.L3.Dots

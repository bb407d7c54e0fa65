import VlmConvert.Core.Bytes

/-!
# JSON texts

The grammar of RFC 8259 over bytes, as a relation between values and texts
with any blanks the grammar allows. Numbers and strings are kept as they are
written.

A text can be scanned for nesting without reading it: `Scan` counts open
brackets and braces outside strings. Every JSON value leaves the count as it
found it and never goes below it (`Steady`), so a text that ends inside an
object or a string is no JSON text.

Results:

* `steady_of_jsonText`: the texts of the grammar are steady.
* `IsJson.scan`: a JSON text closes all it opens.
* `object_unclosed`: a proper prefix of an object is inside it.
-/
namespace VlmConvert

open Bytes

inductive Json
  | null
  | bool (b : Bool)
  | num (lexeme : Bytes)
  | str (body : Bytes)
  | arr (items : List Json)
  | obj (members : List (Bytes × Json))

def Json.IsObject : Json → Prop
  | .obj _ => True
  | _ => False

namespace Json

/-! ## The grammar -/

/-- Insignificant whitespace. -/
def Blank (l : Bytes) : Prop := ∀ b ∈ l, isBlank b = true

def isHexDigit (b : UInt8) : Bool := isDigit b || (0x61 ≤ toLower b && toLower b ≤ 0x66)

/-- What may stand between the quotes: characters other than the quote, the
backslash and controls, in UTF-8, and escapes. -/
inductive StringBody : Bytes → Prop
  | nil : StringBody []
  | char {rest : Bytes} (c : Char) (hcontrol : 0x20 ≤ c.toNat) (hquote : c.toNat ≠ 0x22)
      (hbackslash : c.toNat ≠ 0x5C) (hrest : StringBody rest) :
      StringBody (String.utf8EncodeChar c ++ rest)
  | escape {rest : Bytes} (c : UInt8) (h : c ∈ ascii "\"\\/bfnrt") (hrest : StringBody rest) :
      StringBody (0x5C :: c :: rest)
  | unicode {rest : Bytes} (digits : Bytes) (hlength : digits.length = 4)
      (hdigits : digits.all isHexDigit = true) (hrest : StringBody rest) :
      StringBody (0x5C :: 0x75 :: (digits ++ rest))

def quoted (body : Bytes) : Bytes := 0x22 :: (body ++ [0x22])

/-- Digits, at least one. -/
def Digits (l : Bytes) : Prop := l ≠ [] ∧ l.all isDigit = true

/-- A number: sign, integer, fraction, exponent. -/
inductive Number : Bytes → Prop
  | mk {sign int frac exp : Bytes} (hsign : sign = [] ∨ sign = [0x2D])
      (hint : Digits int) (hzero : int.head? = some 0x30 → int = [0x30])
      (hfrac : frac = [] ∨ ∃ ds, frac = 0x2E :: ds ∧ Digits ds)
      (hexp : exp = [] ∨ ∃ e s ds, exp = e :: (s ++ ds) ∧ (e = 0x65 ∨ e = 0x45) ∧
        (s = [] ∨ s = [0x2B] ∨ s = [0x2D]) ∧ Digits ds) :
      Number (sign ++ int ++ frac ++ exp)

/-- What a text stands for: a value, the items of an array, the members of an
object. -/
inductive Part
  | value (v : Json)
  | items (vs : List Json)
  | members (ms : List (Bytes × Json))

/-- The texts of the grammar. -/
inductive JsonText : Part → Bytes → Prop
  | null : JsonText (.value .null) (ascii "null")
  | true : JsonText (.value (.bool true)) (ascii "true")
  | false : JsonText (.value (.bool false)) (ascii "false")
  | num {l : Bytes} (h : Number l) : JsonText (.value (.num l)) l
  | str {s : Bytes} (h : StringBody s) : JsonText (.value (.str s)) (quoted s)
  | emptyArr {w : Bytes} (h : Blank w) : JsonText (.value (.arr [])) (0x5B :: (w ++ [0x5D]))
  | arr {vs : List Json} {t : Bytes} (h : JsonText (.items vs) t) :
      JsonText (.value (.arr vs)) (0x5B :: (t ++ [0x5D]))
  | emptyObj {w : Bytes} (h : Blank w) : JsonText (.value (.obj [])) (0x7B :: (w ++ [0x7D]))
  | obj {ms : List (Bytes × Json)} {t : Bytes} (h : JsonText (.members ms) t) :
      JsonText (.value (.obj ms)) (0x7B :: (t ++ [0x7D]))
  | item {v : Json} {w t w' : Bytes} (hw : Blank w) (h : JsonText (.value v) t) (hw' : Blank w') :
      JsonText (.items [v]) (w ++ (t ++ w'))
  | items {v : Json} {vs : List Json} {w t w' more : Bytes} (hw : Blank w)
      (h : JsonText (.value v) t) (hw' : Blank w') (hmore : JsonText (.items vs) more) :
      JsonText (.items (v :: vs)) (w ++ (t ++ (w' ++ 0x2C :: more)))
  | member {k w w' t : Bytes} {v : Json} (hw : Blank w) (hk : StringBody k) (hw' : Blank w')
      (h : JsonText (.items [v]) t) :
      JsonText (.members [(k, v)]) (w ++ (quoted k ++ (w' ++ 0x3A :: t)))
  | members {k w w' t more : Bytes} {v : Json} {ms : List (Bytes × Json)} (hw : Blank w)
      (hk : StringBody k) (hw' : Blank w') (h : JsonText (.items [v]) t)
      (hmore : JsonText (.members ms) more) :
      JsonText (.members ((k, v) :: ms)) (w ++ (quoted k ++ (w' ++ 0x3A :: (t ++ 0x2C :: more))))

/-- A JSON text: a value and blanks around it. -/
def IsJson (text : Bytes) (v : Json) : Prop :=
  ∃ w t w', Blank w ∧ JsonText (.value v) t ∧ Blank w' ∧ text = w ++ (t ++ w')

/-! ## Scanning -/

inductive ScanMode
  | plain | string | escape
  deriving DecidableEq, Repr

structure Scan where
  depth : Nat
  mode : ScanMode
  deriving DecidableEq, Repr

def Scan.step (s : Scan) (b : UInt8) : Scan :=
  match s.mode with
  | .plain =>
    if b = 0x22 then { s with mode := .string }
    else if b = 0x7B ∨ b = 0x5B then { s with depth := s.depth + 1 }
    else if b = 0x7D ∨ b = 0x5D then { s with depth := s.depth - 1 }
    else s
  | .string =>
    if b = 0x22 then { s with mode := .plain }
    else if b = 0x5C then { s with mode := .escape }
    else s
  | .escape => { s with mode := .string }

def scan (s : Scan) (l : Bytes) : Scan := l.foldl Scan.step s

@[simp] theorem scan_nil (s : Scan) : scan s [] = s := rfl

@[simp] theorem scan_cons (s : Scan) (b : UInt8) (l : Bytes) :
    scan s (b :: l) = scan (s.step b) l := rfl

@[simp] theorem scan_append (s : Scan) (l m : Bytes) : scan s (l ++ m) = scan (scan s l) m :=
  List.foldl_append

theorem prefix_append_or {α : Type} {p l m : List α} (h : p <+: l ++ m) :
    p <+: l ∨ ∃ q, p = l ++ q ∧ q <+: m := by
  by_cases hlen : p.length ≤ l.length
  · exact Or.inl (List.prefix_of_prefix_length_le h (List.prefix_append l m) hlen)
  · obtain ⟨q, rfl⟩ := List.prefix_of_prefix_length_le (List.prefix_append l m) h (by omega)
    exact Or.inr ⟨q, rfl, (List.prefix_append_right_inj l).1 h⟩

/-- From a mode back to it, with the depth never below where it began. -/
structure Keeps (mode : ScanMode) (t : Bytes) : Prop where
  back : ∀ d, scan ⟨d, mode⟩ t = ⟨d, mode⟩
  above : ∀ d, ∀ p, p <+: t → d ≤ (scan ⟨d, mode⟩ p).depth

/-- Outside strings. -/
abbrev Steady (t : Bytes) : Prop := Keeps .plain t

section Keeps
variable {mode : ScanMode} {t u : Bytes}

theorem Keeps.nil : Keeps mode [] := by
  refine ⟨fun d => rfl, fun d p hp => ?_⟩
  rw [List.prefix_nil.1 hp]
  exact Nat.le_refl d

theorem Keeps.append (ht : Keeps mode t) (hu : Keeps mode u) : Keeps mode (t ++ u) := by
  refine ⟨fun d => ?_, fun d p hp => ?_⟩
  · rw [scan_append, ht.back, hu.back]
  · rcases prefix_append_or hp with hp | ⟨q, rfl, hq⟩
    · exact ht.above d p hp
    · rw [scan_append, ht.back]
      exact hu.above d q hq

/-- Bytes that the scan passes over. -/
theorem Keeps.inert (h : ∀ b ∈ t, ∀ d, Scan.step ⟨d, mode⟩ b = ⟨d, mode⟩) : Keeps mode t := by
  have hscan : ∀ l : Bytes, (∀ b ∈ l, b ∈ t) → ∀ d, scan ⟨d, mode⟩ l = ⟨d, mode⟩ := by
    intro l
    induction l with
    | nil => intro _ d; rfl
    | cons b l ih =>
      intro hl d
      rw [scan_cons, h b (hl b List.mem_cons_self)]
      exact ih (fun c hc => hl c (List.mem_cons_of_mem b hc)) d
  refine ⟨hscan t fun b hb => hb, fun d p hp => ?_⟩
  rw [hscan p fun b hb => hp.subset hb]

theorem Steady.quoted {body : Bytes} (h : Keeps .string body) : Steady (quoted body) := by
  have hopen : ∀ d, Scan.step ⟨d, .plain⟩ 0x22 = ⟨d, .string⟩ := fun d => rfl
  have hclose : ∀ d, Scan.step ⟨d, .string⟩ 0x22 = ⟨d, .plain⟩ := fun d => rfl
  refine ⟨fun d => ?_, fun d p hp => ?_⟩
  · rw [Json.quoted, scan_cons, hopen, scan_append, h.back, scan_cons, hclose, scan_nil]
  · cases p with
    | nil => exact Nat.le_refl d
    | cons b p =>
      obtain ⟨rfl, hrest⟩ := List.cons_prefix_cons.1 hp
      rw [scan_cons, hopen]
      rcases prefix_append_or hrest with hbody | ⟨q, rfl, hq⟩
      · exact h.above d p hbody
      · rw [scan_append, h.back]
        rcases List.prefix_cons_iff.1 hq with rfl | ⟨q', rfl, hq'⟩
        · exact Nat.le_refl d
        · rw [List.prefix_nil.1 hq']
          exact Nat.le_refl d

/-- What stands between brackets is one deeper. -/
theorem bracket_above {left : UInt8} (hleft : left = 0x7B ∨ left = 0x5B) (h : Steady t) (d : Nat)
    {p : Bytes} (hp : p <+: left :: t) (hne : p ≠ []) : d + 1 ≤ (scan ⟨d, .plain⟩ p).depth := by
  cases p with
  | nil => exact absurd rfl hne
  | cons b p =>
    obtain ⟨rfl, hrest⟩ := List.cons_prefix_cons.1 hp
    have hopen : Scan.step ⟨d, .plain⟩ b = ⟨d + 1, .plain⟩ := by
      rcases hleft with rfl | rfl <;> rfl
    rw [scan_cons, hopen]
    exact h.above (d + 1) p hrest

theorem Steady.bracket {left right : UInt8} (hleft : left = 0x7B ∨ left = 0x5B)
    (hright : right = 0x7D ∨ right = 0x5D) (h : Steady t) : Steady (left :: (t ++ [right])) := by
  have hopen : ∀ d, Scan.step ⟨d, .plain⟩ left = ⟨d + 1, .plain⟩ := by
    intro d
    rcases hleft with rfl | rfl <;> rfl
  have hclose : ∀ d, Scan.step ⟨d + 1, .plain⟩ right = ⟨d, .plain⟩ := by
    intro d
    rcases hright with rfl | rfl <;> rfl
  have hback : ∀ d, scan ⟨d, .plain⟩ (left :: (t ++ [right])) = ⟨d, .plain⟩ := by
    intro d
    rw [scan_cons, hopen, scan_append, h.back, scan_cons, hclose, scan_nil]
  refine ⟨hback, fun d p hp => ?_⟩
  rw [← List.cons_append] at hp
  rcases prefix_append_or hp with hp | ⟨q, rfl, hq⟩
  · by_cases hne : p = []
    · rw [hne]; exact Nat.le_refl d
    · exact Nat.le_of_succ_le (bracket_above hleft h d hp hne)
  · rcases List.prefix_cons_iff.1 hq with rfl | ⟨q', rfl, hq'⟩
    · rw [List.append_nil]
      exact Nat.le_of_succ_le (bracket_above hleft h d List.prefix_rfl (List.cons_ne_nil _ _))
    · rw [List.prefix_nil.1 hq', List.cons_append, hback]

end Keeps

/-! ## The grammar is steady -/

section Grammar

theorem ofNat_ne {k : Nat} (hk : k < 256) (hquote : k ≠ 0x22) (hbackslash : k ≠ 0x5C) :
    UInt8.ofNat k ≠ 0x22 ∧ UInt8.ofNat k ≠ 0x5C := by
  have hnat : (UInt8.ofNat k).toNat = k := by
    rw [UInt8.toNat_ofNat']
    exact Nat.mod_eq_of_lt hk
  constructor
  · intro h
    rw [h] at hnat
    exact hquote hnat.symm
  · intro h
    rw [h] at hnat
    exact hbackslash hnat.symm

/-- No byte of a character that needs no escape ends a string or escapes. -/
theorem utf8_bytes {c : Char} (hquote : c.toNat ≠ 0x22) (hbackslash : c.toNat ≠ 0x5C) :
    ∀ b ∈ String.utf8EncodeChar c, b ≠ 0x22 ∧ b ≠ 0x5C := by
  have hval : c.val.toNat = c.toNat := rfl
  intro b hb
  simp only [String.utf8EncodeChar] at hb
  split at hb
  · rw [List.mem_singleton.1 hb]
    exact ofNat_ne (by omega) (by omega) (by omega)
  all_goals
    split at hb
    · simp only [List.mem_cons, List.not_mem_nil, or_false] at hb
      rcases hb with rfl | rfl <;> exact ofNat_ne (by omega) (by omega) (by omega)
    · split at hb
      · simp only [List.mem_cons, List.not_mem_nil, or_false] at hb
        rcases hb with rfl | rfl | rfl <;> exact ofNat_ne (by omega) (by omega) (by omega)
      · simp only [List.mem_cons, List.not_mem_nil, or_false] at hb
        rcases hb with rfl | rfl | rfl | rfl <;> exact ofNat_ne (by omega) (by omega) (by omega)

/-- A backslash and what it escapes. -/
theorem keeps_escape (c : UInt8) : Keeps .string [0x5C, c] := by
  refine ⟨fun d => rfl, fun d p hp => ?_⟩
  rcases List.prefix_cons_iff.1 hp with rfl | ⟨q, rfl, hq⟩
  · exact Nat.le_refl d
  · rcases List.prefix_cons_iff.1 hq with rfl | ⟨r, rfl, hr⟩
    · exact Nat.le_refl d
    · rw [List.prefix_nil.1 hr]
      exact Nat.le_refl d

theorem hexDigit_ne {b : UInt8} (h : isHexDigit b = true) : b ≠ 0x22 ∧ b ≠ 0x5C := by
  constructor
  · rintro rfl
    exact absurd h (by decide)
  · rintro rfl
    exact absurd h (by decide)

theorem keeps_body {s : Bytes} (h : StringBody s) : Keeps .string s := by
  have hinert : ∀ {t : Bytes}, (∀ b ∈ t, b ≠ 0x22 ∧ b ≠ 0x5C) → Keeps .string t := by
    intro t ht
    refine .inert fun b hb d => ?_
    obtain ⟨hq, hbs⟩ := ht b hb
    simp [Scan.step, hq, hbs]
  induction h with
  | nil => exact .nil
  | char c _ hquote hbackslash _ ih => exact (hinert (utf8_bytes hquote hbackslash)).append ih
  | escape c _ _ ih => exact (keeps_escape c).append ih
  | unicode digits _ hdigits _ ih =>
    refine (keeps_escape 0x75).append (Keeps.append (hinert fun b hb => ?_) ih)
    exact hexDigit_ne (List.all_eq_true.1 hdigits b hb)

/-- Bytes that open and close nothing. -/
def isInert (b : UInt8) : Bool :=
  b != 0x22 && b != 0x7B && b != 0x5B && b != 0x7D && b != 0x5D

theorem steady_inert {t : Bytes} (h : t.all isInert = true) : Steady t := by
  refine .inert fun b hb d => ?_
  have hinert := List.all_eq_true.1 h b hb
  simp only [isInert, Bool.and_eq_true, bne_iff_ne] at hinert
  obtain ⟨⟨⟨⟨h1, h2⟩, h3⟩, h4⟩, h5⟩ := hinert
  simp [Scan.step, h1, h2, h3, h4, h5]

theorem steady_blank {w : Bytes} (h : Blank w) : Steady w := by
  refine steady_inert (List.all_eq_true.2 fun b hb => ?_)
  have hblank := h b hb
  simp only [isBlank, Bool.or_eq_true, beq_iff_eq] at hblank
  rcases hblank with ((rfl | rfl) | rfl) | rfl <;> decide

theorem steady_digits {ds : Bytes} (h : Digits ds) : Steady ds := by
  refine steady_inert (List.all_eq_true.2 fun b hb => ?_)
  have hdigit := List.all_eq_true.1 h.2 b hb
  simp only [isInert, Bool.and_eq_true, bne_iff_ne]
  refine ⟨⟨⟨⟨?_, ?_⟩, ?_⟩, ?_⟩, ?_⟩ <;>
    · rintro rfl
      exact absurd hdigit (by decide)

theorem steady_number {l : Bytes} (h : Number l) : Steady l := by
  obtain ⟨hsign, hint, -, hfrac, hexp⟩ := h
  refine (((Keeps.append ?_ (steady_digits hint)).append ?_).append ?_)
  · rcases hsign with rfl | rfl
    · exact .nil
    · exact steady_inert (by decide)
  · rcases hfrac with rfl | ⟨ds, rfl, hds⟩
    · exact .nil
    · rw [← List.singleton_append]
      exact Keeps.append (steady_inert (by decide)) (steady_digits hds)
  · rcases hexp with rfl | ⟨e, s, ds, rfl, he, hs, hds⟩
    · exact .nil
    · rw [← List.singleton_append]
      refine Keeps.append ?_ (Keeps.append ?_ (steady_digits hds))
      · rcases he with rfl | rfl <;> exact steady_inert (by decide)
      · rcases hs with rfl | rfl | rfl
        · exact .nil
        · exact steady_inert (by decide)
        · exact steady_inert (by decide)

theorem steady_colon {t : Bytes} (b : UInt8) (hb : isInert b = true) (h : Steady t) :
    Steady (b :: t) := by
  rw [← List.singleton_append]
  exact Keeps.append (steady_inert (by simpa using hb)) h

/-- **Every text of the grammar is steady.** -/
theorem steady_of_jsonText {part : Part} {t : Bytes} (h : JsonText part t) : Steady t := by
  induction h with
  | null => exact steady_inert (by decide)
  | true => exact steady_inert (by decide)
  | false => exact steady_inert (by decide)
  | num h => exact steady_number h
  | str h => exact Steady.quoted (keeps_body h)
  | emptyArr h => exact Steady.bracket (Or.inr rfl) (Or.inr rfl) (steady_blank h)
  | arr _ ih => exact Steady.bracket (Or.inr rfl) (Or.inr rfl) ih
  | emptyObj h => exact Steady.bracket (Or.inl rfl) (Or.inl rfl) (steady_blank h)
  | obj _ ih => exact Steady.bracket (Or.inl rfl) (Or.inl rfl) ih
  | item hw _ hw' ih => exact (steady_blank hw).append (ih.append (steady_blank hw'))
  | items hw _ hw' _ ih ihmore =>
    exact (steady_blank hw).append (ih.append ((steady_blank hw').append
      (steady_colon 0x2C (by decide) ihmore)))
  | member hw hk hw' _ ih =>
    exact (steady_blank hw).append
      ((Steady.quoted (keeps_body hk)).append ((steady_blank hw').append
      (steady_colon 0x3A (by decide) ih)))
  | members hw hk hw' _ _ ih ihmore =>
    exact (steady_blank hw).append
      ((Steady.quoted (keeps_body hk)).append ((steady_blank hw').append
      (steady_colon 0x3A (by decide) (ih.append (steady_colon 0x2C (by decide) ihmore)))))

/-- **A JSON text closes all it opens.** -/
theorem IsJson.scan {text : Bytes} {v : Json} (h : IsJson text v) (d : Nat) :
    scan ⟨d, .plain⟩ text = ⟨d, .plain⟩ := by
  obtain ⟨w, t, w', hw, ht, hw', rfl⟩ := h
  exact ((steady_blank hw).append ((steady_of_jsonText ht).append (steady_blank hw'))).back d

/-- **A proper prefix of an object is inside it.** -/
theorem object_unclosed {v : Json} {t p : Bytes} (h : JsonText (.value v) t) (hv : v.IsObject)
    (d : Nat) (hp : p <+: t) (hne : p ≠ []) (hproper : p ≠ t) :
    d + 1 ≤ (Json.scan ⟨d, .plain⟩ p).depth := by
  have hbody : ∃ body, t = 0x7B :: (body ++ [0x7D]) ∧ Steady body := by
    cases h with
    | emptyObj hw => exact ⟨_, rfl, steady_blank hw⟩
    | obj hm => exact ⟨_, rfl, steady_of_jsonText hm⟩
    | _ => exact hv.elim
  obtain ⟨body, rfl, hsteady⟩ := hbody
  rw [← List.cons_append] at hp hproper
  rcases prefix_append_or hp with hp | ⟨q, rfl, hq⟩
  · exact bracket_above (Or.inl rfl) hsteady d hp hne
  · rcases List.prefix_cons_iff.1 hq with rfl | ⟨q', rfl, hq'⟩
    · rw [List.append_nil]
      exact bracket_above (Or.inl rfl) hsteady d List.prefix_rfl (List.cons_ne_nil _ _)
    · rw [List.prefix_nil.1 hq'] at hproper
      exact absurd rfl hproper

end Grammar

end Json

end VlmConvert

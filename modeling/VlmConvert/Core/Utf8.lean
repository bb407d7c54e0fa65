import VlmConvert.Core.Bytes

/-!
# UTF-8 texts

A text is UTF-8 when it is the encoding of a list of characters (Lean's
`String.utf8EncodeChar`). A byte below 0x80 is a character of its own and is no
part of another, so a text may be cut at such a byte (`Utf8.split`), and bytes
may be rewritten one by one as long as the others stay (`Utf8.flatMap`).

A window on a text may end within a character: `Utf8.Begun` says that a text
goes on to be UTF-8, and what stands before an ASCII byte of it is UTF-8
(`Begun.split`, `Begun.takeWhile`).
-/
namespace VlmConvert

/-- The text is the encoding of some characters. -/
def Utf8 (text : Bytes) : Prop := ∃ chars : List Char, text = chars.flatMap String.utf8EncodeChar

namespace Utf8

/-- A character is one byte below 0x80, or bytes from 0x80 on. -/
theorem encode_cases (c : Char) : (∃ b, b < 0x80 ∧ String.utf8EncodeChar c = [b]) ∨
    String.utf8EncodeChar c ≠ [] ∧ ∀ b ∈ String.utf8EncodeChar c, 0x80 ≤ b := by
  have hbyte : ∀ n : Nat, 0x80 ≤ n → n < 0x100 → (0x80 : UInt8) ≤ UInt8.ofNat n := by
    intro n h1 h2
    rw [UInt8.le_iff_toNat_le, UInt8.toNat_ofNat', Nat.mod_eq_of_lt h2]
    exact h1
  unfold String.utf8EncodeChar
  dsimp only
  generalize c.val.toNat = v
  split
  · refine Or.inl ⟨UInt8.ofNat v, ?_, rfl⟩
    rw [UInt8.lt_iff_toNat_lt, UInt8.toNat_ofNat', Nat.mod_eq_of_lt (by omega)]
    change v < 128
    omega
  · right
    split
    · refine ⟨by simp, ?_⟩
      intro b hb
      simp only [List.mem_cons, List.not_mem_nil, or_false] at hb
      rcases hb with rfl | rfl
      all_goals exact hbyte _ (by omega) (by omega)
    · split
      · refine ⟨by simp, ?_⟩
        intro b hb
        simp only [List.mem_cons, List.not_mem_nil, or_false] at hb
        rcases hb with rfl | rfl | rfl
        all_goals exact hbyte _ (by omega) (by omega)
      · refine ⟨by simp, ?_⟩
        intro b hb
        simp only [List.mem_cons, List.not_mem_nil, or_false] at hb
        rcases hb with rfl | rfl | rfl | rfl
        all_goals exact hbyte _ (by omega) (by omega)

theorem nil : Utf8 [] := ⟨[], rfl⟩

theorem encode (c : Char) : Utf8 (String.utf8EncodeChar c) := ⟨[c], by simp⟩

theorem append {a b : Bytes} (ha : Utf8 a) (hb : Utf8 b) : Utf8 (a ++ b) := by
  obtain ⟨cs, rfl⟩ := ha
  obtain ⟨ds, rfl⟩ := hb
  exact ⟨cs ++ ds, by rw [List.flatMap_append]⟩

theorem val_ofNat {n : Nat} (h : n.isValidChar) : (Char.ofNat n).val.toNat = n := by
  rw [Char.ofNat, dif_pos h]
  rfl

theorem byte {c : UInt8} (hc : c < 0x80) : Utf8 [c] := by
  have hlt : c.toNat < 0x80 := UInt8.lt_iff_toNat_lt.1 hc
  refine ⟨[Char.ofNat c.toNat], ?_⟩
  rw [List.flatMap_cons, List.flatMap_nil, List.append_nil, String.utf8EncodeChar,
    val_ofNat (Or.inl (by omega)), if_pos (by omega), UInt8.ofNat_toNat]

theorem cons {c : UInt8} {l : Bytes} (hc : c < 0x80) (h : Utf8 l) : Utf8 (c :: l) :=
  (byte hc).append h

/-- **A cut at an ASCII byte.** -/
theorem split {a b : Bytes} {c : UInt8} (hc : c < 0x80) (h : Utf8 (a ++ c :: b)) :
    Utf8 a ∧ Utf8 b := by
  obtain ⟨chars, h⟩ := h
  induction chars generalizing a with
  | nil => simp at h
  | cons d chars ih =>
    rw [List.flatMap_cons] at h
    rcases List.append_eq_append_iff.1 h with ⟨rest, hd, hrest⟩ | ⟨rest, ha, hrest⟩
    · cases rest with
      | nil =>
        rw [List.append_nil] at hd
        obtain ⟨-, hb⟩ := @ih [] hrest
        exact ⟨hd ▸ encode d, hb⟩
      | cons e rest =>
        rw [List.cons_append, List.cons.injEq] at hrest
        obtain ⟨rfl, rfl⟩ := hrest
        rcases encode_cases d with ⟨x, -, hx⟩ | ⟨-, hhigh⟩
        · rw [hx] at hd
          have ha : a = [] ∧ rest = [] := by
            cases a with
            | nil => simp at hd; exact ⟨rfl, hd.2⟩
            | cons y a => simp at hd
          rw [ha.1, ha.2]
          exact ⟨nil, chars, rfl⟩
        · have hmem : c ∈ String.utf8EncodeChar d := by rw [hd]; simp
          exact absurd hc (UInt8.not_lt.2 (hhigh c hmem))
    · obtain ⟨hrest', hb⟩ := ih hrest.symm
      exact ⟨ha ▸ (encode d).append hrest', hb⟩

theorem ascii_append {a b : Bytes} (ha : ∀ c ∈ a, c < 0x80) (h : Utf8 (a ++ b)) : Utf8 b := by
  induction a with
  | nil => exact h
  | cons c a ih =>
    exact ih (fun d hd => ha d (List.mem_cons_of_mem _ hd))
      (split (a := []) (ha c List.mem_cons_self) h).2

theorem of_ascii {l : Bytes} (h : ∀ c ∈ l, c < 0x80) : Utf8 l := by
  induction l with
  | nil => exact nil
  | cons c l ih =>
      exact cons (h c List.mem_cons_self) (ih fun d hd => h d (List.mem_cons_of_mem _ hd))

/-- A rewriting of the ASCII bytes. -/
theorem flatMap {f : UInt8 → Bytes} (hlow : ∀ c < 0x80, Utf8 (f c))
    (hhigh : ∀ c, 0x80 ≤ c → f c = [c])
    {l : Bytes} (h : Utf8 l) : Utf8 (l.flatMap f) := by
  obtain ⟨chars, rfl⟩ := h
  induction chars with
  | nil => exact nil
  | cons d chars ih =>
    rw [List.flatMap_cons, List.flatMap_append]
    refine append ?_ ih
    rcases encode_cases d with ⟨x, hx, heq⟩ | ⟨-, hd⟩
    · rw [heq, List.flatMap_cons, List.flatMap_nil, List.append_nil]
      exact hlow x hx
    · have hsame : (String.utf8EncodeChar d).flatMap f = String.utf8EncodeChar d := by
        rw [List.flatMap_congr fun c hc => hhigh c (hd c hc)]
        exact List.flatMap_singleton' _
      rw [hsame]
      exact encode d

/-- The text goes on to be UTF-8; it may end within a character. -/
def Begun (l : Bytes) : Prop := ∃ more, Utf8 (l ++ more)

theorem Begun.take {l : Bytes} (h : Utf8 l) (n : Nat) : Begun (l.take n) :=
  ⟨l.drop n, by rwa [List.take_append_drop]⟩

theorem Begun.split {a b : Bytes} {c : UInt8} (hc : c < 0x80) (h : Begun (a ++ c :: b)) :
    Utf8 a ∧ Begun b := by
  obtain ⟨more, h⟩ := h
  rw [List.append_assoc, List.cons_append] at h
  exact ⟨(Utf8.split hc h).1, more, (Utf8.split hc h).2⟩

theorem Begun.cons {c : UInt8} {l : Bytes} (hc : c < 0x80) (h : Begun (c :: l)) : Begun l :=
  (Begun.split (a := []) hc h).2

/-- ASCII bytes may be passed over. -/
theorem Begun.dropWhile {p : UInt8 → Bool} (hp : ∀ c, p c = true → c < 0x80) {l : Bytes}
    (h : Begun l) :
    Begun (l.dropWhile p) := by
  induction l with
  | nil => exact h
  | cons c l ih =>
    rw [List.dropWhile_cons]
    split
    · rename_i hc
      exact ih (h.cons (hp c hc))
    · exact h

/-- What ends at an ASCII byte is UTF-8. -/
theorem Begun.takeWhile {p : UInt8 → Bool} (hp : ∀ c, p c = false → c < 0x80) {l : Bytes}
    (h : Begun l)
    (hrest : l.dropWhile p ≠ []) : Utf8 (l.takeWhile p) ∧ Begun (l.dropWhile p) := by
  have hl := List.takeWhile_append_dropWhile (p := p) (l := l)
  cases hd : l.dropWhile p with
  | nil => exact absurd hd hrest
  | cons c rest =>
    have hc : p c = false := by
      have := List.head_dropWhile_not p hrest
      simpa only [hd, List.head_cons] using this
    rw [hd] at hl
    rw [← hl] at h
    obtain ⟨h1, more, h2⟩ := h.split (hp c hc)
    exact ⟨h1, more, Utf8.cons (hp c hc) h2⟩

end Utf8

end VlmConvert

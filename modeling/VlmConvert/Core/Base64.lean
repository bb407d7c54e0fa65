import VlmConvert.Core.Bytes

/-!
# Base64

The encoding of RFC 4648, section 4: three bytes are four digits of six bits,
and a last group of one or two bytes is filled up with `=`. The decoder takes
whole groups only, `=` only where the last group ends, and no bits behind the
last byte.

Results:

* `decode_encode`: decoding gives back the bytes.
* `length_encode`: four digits for every three bytes begun.
-/
namespace VlmConvert.Base64

open Bytes

def alphabet : Bytes :=
  ascii "ABCDEFGHIJKLMNOPQRSTUVWXYZabcdefghijklmnopqrstuvwxyz0123456789+/"

/-- What fills up the last group. -/
def pad : UInt8 := 0x3D

/-- The digit of the low six bits. -/
def digit (n : Nat) : UInt8 := alphabet.getD (n % 64) 0

/-- The six bits of a digit. -/
def value (b : UInt8) : Option Nat := alphabet.idxOf? b

def encode : Bytes → Bytes
  | [] => []
  | [a] => [digit (a.toNat / 4), digit (a.toNat * 16), pad, pad]
  | [a, b] =>
    [digit (a.toNat / 4), digit (a.toNat * 16 + b.toNat / 16), digit (b.toNat * 4), pad]
  | a :: b :: c :: bytes =>
    digit (a.toNat / 4) :: digit (a.toNat * 16 + b.toNat / 16) ::
      digit (b.toNat * 4 + c.toNat / 64) :: digit c.toNat :: encode bytes

/-- The bytes of a whole group. -/
def group (a b c d : UInt8) : Option Bytes := do
  let a ← value a
  let b ← value b
  let c ← value c
  let d ← value d
  return [(a * 4 + b / 16).toUInt8, (b * 16 + c / 4).toUInt8, (c * 64 + d).toUInt8]

/-- The bytes of a group that ends in `=`. -/
def lastGroup (a b c : UInt8) : Option Bytes := do
  let a ← value a
  let b ← value b
  if c = pad then
    if b % 16 = 0 then return [(a * 4 + b / 16).toUInt8] else none
  else
    let c ← value c
    if c % 4 = 0 then return [(a * 4 + b / 16).toUInt8, (b * 16 + c / 4).toUInt8] else none

def decode : Bytes → Option Bytes
  | [] => some []
  | a :: b :: c :: d :: text =>
    if d = pad then
      if text = [] then lastGroup a b c else none
    else do
      let bytes ← group a b c d
      let rest ← decode text
      return bytes ++ rest
  | _ => none

/-! ## One digit -/

theorem value_digit (n : Nat) : value (digit n) = some (n % 64) := by
  have h : ∀ i : Fin 64, value (alphabet.getD i.val 0) = some i.val := by
    decide +kernel
  exact h ⟨n % 64, Nat.mod_lt n (by omega)⟩

theorem value_pad : value pad = none := by decide

theorem digit_ne_pad (n : Nat) : digit n ≠ pad := by
  intro h
  have hvalue := value_digit n
  rw [h, value_pad] at hvalue
  cases hvalue

theorem toUInt8_of_mod {n : Nat} {b : UInt8} (h : n % 256 = b.toNat) : n.toUInt8 = b := by
  apply UInt8.toNat_inj.1
  rw [Nat.toUInt8_eq, UInt8.toNat_ofNat']
  exact h

/-! ## The round trip -/

theorem group_digits (a b c : UInt8) :
    group (digit (a.toNat / 4)) (digit (a.toNat * 16 + b.toNat / 16))
      (digit (b.toNat * 4 + c.toNat / 64)) (digit c.toNat) = some [a, b, c] := by
  have ha := a.toNat_lt
  have hb := b.toNat_lt
  have hc := c.toNat_lt
  simp only [group, value_digit, Option.bind_eq_bind, Option.bind_some, Option.pure_def]
  rw [toUInt8_of_mod (b := a) (by omega), toUInt8_of_mod (b := b) (by omega),
    toUInt8_of_mod (b := c) (by omega)]

theorem lastGroup_one (a : UInt8) :
    lastGroup (digit (a.toNat / 4)) (digit (a.toNat * 16)) pad = some [a] := by
  have ha := a.toNat_lt
  simp only [lastGroup, value_digit, Option.bind_eq_bind, Option.bind_some, Option.pure_def,
    if_true]
  rw [if_pos (by omega), toUInt8_of_mod (b := a) (by omega)]

theorem lastGroup_two (a b : UInt8) :
    lastGroup (digit (a.toNat / 4)) (digit (a.toNat * 16 + b.toNat / 16)) (digit (b.toNat * 4)) =
      some [a, b] := by
  have ha := a.toNat_lt
  have hb := b.toNat_lt
  simp only [lastGroup, value_digit, Option.bind_eq_bind, Option.bind_some, Option.pure_def]
  rw [if_neg (digit_ne_pad _), if_pos (by omega), toUInt8_of_mod (b := a) (by omega),
    toUInt8_of_mod (b := b) (by omega)]

/-- **Round trip.** What is decoded is what was encoded. -/
theorem decode_encode (bytes : Bytes) : decode (encode bytes) = some bytes := by
  induction bytes using encode.induct with
  | case1 => rfl
  | case2 a => rw [encode, decode, if_pos rfl, if_pos rfl, lastGroup_one]
  | case3 a b => rw [encode, decode, if_pos rfl, if_pos rfl, lastGroup_two]
  | case4 a b c bytes ih =>
    rw [encode, decode, if_neg (digit_ne_pad _), group_digits, ih]
    rfl

/-- Four digits for every three bytes begun. -/
theorem length_encode (bytes : Bytes) :
    (encode bytes).length = 4 * ((bytes.length + 2) / 3) := by
  induction bytes using encode.induct with
  | case1 => rfl
  | case2 a => simp [encode]
  | case3 a b => simp [encode]
  | case4 a b c bytes ih =>
    simp only [encode, List.length_cons, ih]
    omega

end VlmConvert.Base64

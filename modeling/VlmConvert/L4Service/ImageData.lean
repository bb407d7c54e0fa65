import VlmConvert.Core.Base64
import VlmConvert.L3Document.ImageCrop
import VlmConvert.L4Service.VlmClient

/-!
# Images as text

A page image goes to the model inside its request
(`src/vlm_client.cpp:158-177`) and a crop into the document
(`src/mapping/image_crop.cpp:25-44`), each through its own `base64_encode`.

Results:

* `base64Encode_agree`: both write the text of RFC 4648 for the bytes they are
  given, and it decodes to them.
-/
namespace VlmConvert.L4

open Bytes

theorem requestDigit_eq (n : Nat) : VlmClient.base64Digit n = Base64.digit n := rfl

theorem cropDigit_eq (n shift : Nat) :
    L3.ImageCrop.base64Digit n shift = Base64.digit (n / 2 ^ shift) := rfl

/-- A digit shows six bits. -/
theorem digit_congr {m n : Nat} (h : m % 64 = n % 64) : Base64.digit m = Base64.digit n := by
  rw [Base64.digit, h, Base64.digit]

theorem requestEncode_eq (bytes : Bytes) : VlmClient.base64Encode bytes = Base64.encode bytes := by
  induction bytes using Base64.encode.induct with
  | case1 => rfl
  | case2 a =>
    simp only [VlmClient.base64Encode, Base64.encode, requestDigit_eq, List.cons.injEq]
    exact ⟨digit_congr (by omega), digit_congr (by omega), rfl, rfl, trivial⟩
  | case3 a b =>
    have hb := b.toNat_lt
    simp only [VlmClient.base64Encode, Base64.encode, requestDigit_eq, List.cons.injEq]
    exact ⟨digit_congr (by omega), digit_congr (by omega), digit_congr (by omega), rfl, trivial⟩
  | case4 a b c bytes ih =>
    have hb := b.toNat_lt
    have hc := c.toNat_lt
    simp only [VlmClient.base64Encode, Base64.encode, requestDigit_eq, List.cons_append,
      List.nil_append, List.cons.injEq]
    exact ⟨digit_congr (by omega), digit_congr (by omega), digit_congr (by omega),
      digit_congr (by omega), ih⟩

theorem cropEncode_eq (bytes : Bytes) :
    L3.ImageCrop.base64Encode bytes = VlmClient.base64Encode bytes := by
  induction bytes using Base64.encode.induct with
  | case1 => rfl
  | case2 a => rfl
  | case3 a b => rfl
  | case4 a b c bytes ih =>
    rw [L3.ImageCrop.base64Encode, VlmClient.base64Encode, ih]
    simp only [requestDigit_eq, cropDigit_eq, Nat.pow_zero, Nat.div_one]
    rfl

/-- **The encoders agree.** Both give the same text, of four digits for every
three bytes begun, and it decodes to the bytes. -/
theorem base64Encode_agree (bytes : Bytes) :
    VlmClient.base64Encode bytes = L3.ImageCrop.base64Encode bytes ∧
      (VlmClient.base64Encode bytes).length = 4 * ((bytes.length + 2) / 3) ∧
      Base64.decode (VlmClient.base64Encode bytes) = some bytes := by
  refine ⟨(cropEncode_eq bytes).symm, ?_, ?_⟩
  · rw [requestEncode_eq, Base64.length_encode]
  · rw [requestEncode_eq, Base64.decode_encode]

example : L3.ImageCrop.base64Encode (ascii "vlm!") = ascii "dmxtIQ==" := by decide

end VlmConvert.L4

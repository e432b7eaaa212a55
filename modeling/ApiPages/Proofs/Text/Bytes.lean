import ApiPages.Proofs.Text.Utf8
import ApiPages.Text.Bytes

/-!
# Bytes kept in texts

Reading bytes as a text loses none of them, and a text without characters that are set aside is the
text of its bytes in UTF-8.

* `Bytes.ofText_text` gives the bytes of a text back, so `Bytes.text_injective`;
* `Bytes.text_encoded` and `Bytes.ofText_eq_encoded` are about ordinary texts.
-/

namespace ApiPages
namespace Bytes

open Utf8

variable {b : UInt8} {bytes : Bytes} {c : Char} {s : String}

/-- A text whose characters are all read as they are. -/
def IsOrdinary (s : String) : Prop :=
  ∀ c ∈ s.toList, isStray c = false

theorem toList_text (bytes : Bytes) : (text bytes).toList = decoded keeping bytes :=
  String.toList_ofList

theorem accepts_iff : keeping.accepts c = true ↔ isStray c = false := by
  rw [keeping, Bool.not_eq_true']

theorem ofChar_of_not_isStray (h : isStray c = false) : ofChar c = String.utf8EncodeChar c :=
  if_neg (by rw [h]; exact Bool.false_ne_true)

theorem ofChar_stray (h : 0x80 ≤ b.toNat) : ofChar (stray b) = [b] := by
  have hstray : isStray (stray b) = true := by
    rw [isStray, toNat_stray, decide_eq_true_eq]
    omega
  rw [ofChar, if_pos hstray, toNat_stray, Nat.add_sub_cancel_left, UInt8.ofNat_toNat]

/-! ## Back to bytes -/

/-- A byte that begins no character is none below 0x80. -/
theorem le_of_accepted?_eq_none {rest : Bytes} (h : accepted? keeping (b :: rest) = none) :
    0x80 ≤ b.toNat := by
  by_contra hlt
  rw [accepted?_of_first? (first?_of_lt (by omega) rest) (accepts_ofNat keeping (by omega))] at h
  cases h

/-- The characters that bytes are read as stand for these bytes. -/
theorem flatMap_ofChar_decoded (bytes : Bytes) :
    (decoded keeping bytes).flatMap ofChar = bytes := by
  induction bytes using decoded_induction (r := keeping) with
  | hnil =>
      rfl
  | hother b rest hfirst ih =>
      have hbyte : ofChar (keeping.other b) = [b] := ofChar_stray (le_of_accepted?_eq_none hfirst)
      rw [List.flatMap_cons, hbyte, ih]
      rfl
  | hchar b rest c size hfirst ih =>
      obtain ⟨hread, haccepts⟩ := accepted?_eq_some hfirst
      rw [List.flatMap_cons, ih, ofChar_of_not_isStray (accepts_iff.1 haccepts)]
      exact (encodeChar_of_first? hread).symm

theorem ofText_text (bytes : Bytes) : ofText (text bytes) = bytes := by
  rw [ofText, toList_text, flatMap_ofChar_decoded]

/-- Different bytes are different texts. -/
theorem text_injective : Function.Injective text := by
  intro bytes bytes' h
  have hback := congrArg ofText h
  rwa [ofText_text, ofText_text] at hback

/-! ## Ordinary texts -/

theorem text_encoded (h : IsOrdinary s) : text (encoded s.toList) = s := by
  apply String.toList_injective
  rw [toList_text, decoded_encoded fun c hc => accepts_iff.2 (h c hc)]

theorem ofText_eq_encoded (h : IsOrdinary s) : ofText s = encoded s.toList :=
  List.flatMap_congr fun c hc => ofChar_of_not_isStray (h c hc)

theorem text_ofText (h : IsOrdinary s) : text (ofText s) = s := by
  rw [ofText_eq_encoded h, text_encoded h]

end Bytes
end ApiPages

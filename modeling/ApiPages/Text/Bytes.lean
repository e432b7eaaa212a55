import ApiPages.Text.Utf8

/-!
# Texts that stand for bytes

What is read from a file need not be UTF-8, and what is read from it is written to others byte by
byte.  Texts hold all bytes of a file: one that belongs to no character stands as a character of its
own, and 128 characters at the end of the code space are set aside for that.  They belong to no
alphabet, mark nothing and are no blanks, and the bytes of one that occurs in a file are read one by
one as well.

* `Bytes.text` reads bytes, and no two rows of bytes are read as the same text;
* `Bytes.ofText` gives the bytes back.
-/

namespace ApiPages

abbrev Bytes := List UInt8

namespace Bytes

/-- Whether a character is set aside for a byte. -/
def isStray (c : Char) : Bool :=
  0x10FF80 ≤ c.toNat

/-- The character for a byte that belongs to none. -/
def stray (b : UInt8) : Char :=
  Char.ofNat (0x10FF00 + b.toNat)

theorem toNat_stray (b : UInt8) : (stray b).toNat = 0x10FF00 + b.toNat := by
  have hvalid : (0x10FF00 + b.toNat).isValidChar := by
    have hb := b.toNat_lt
    exact .inr ⟨by omega, by omega⟩
  rw [stray, Char.ofNat, dif_pos hvalid]
  rfl

/-- Bytes are kept as they are. -/
def keeping : Utf8.Reading where
  accepts c := !isStray c
  other := stray
  accepts_of_lt c h := by
    rw [isStray, decide_eq_false (by omega)]
    rfl
  le_other b := by
    rw [toNat_stray]
    omega

def text (bytes : Bytes) : String :=
  String.ofList (Utf8.decoded keeping bytes)

/-- The bytes that a character stands for. -/
def ofChar (c : Char) : Bytes :=
  if isStray c then [UInt8.ofNat (c.toNat - 0x10FF00)] else String.utf8EncodeChar c

def ofText (s : String) : Bytes :=
  s.toList.flatMap ofChar

end Bytes
end ApiPages

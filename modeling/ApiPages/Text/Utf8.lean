/-!
# Bytes as characters

Bytes that make up characters are read as these.  What stands for the bytes between them is up to a
`Utf8.Reading`.

* `Utf8.decoded` reads bytes, `Utf8.encoded` writes characters as bytes;
* `Utf8.text` reads bytes as a text in which every byte that belongs to no character is shown by the
  sign for what is no character.
-/

namespace ApiPages
namespace Utf8

/-- The character that stands for what is none. -/
def replacement : Char := '\uFFFD'

/-- The number of bytes of a character that begins with a byte, and the bits that the byte gives. -/
def lead? (b : UInt8) : Option (Nat × Nat) :=
  let n := b.toNat
  if n < 0x80 then some (1, n)
  else if 0xC2 ≤ n && n < 0xE0 then some (2, n - 0xC0)
  else if 0xE0 ≤ n && n < 0xF0 then some (3, n - 0xE0)
  else if 0xF0 ≤ n && n < 0xF5 then some (4, n - 0xF0)
  else none

def isContinuation (b : UInt8) : Bool := 0x80 ≤ b.toNat && b.toNat < 0xC0

/-- The least number that takes a given count of bytes. -/
def least (size : Nat) : Nat :=
  match size with
  | 2 => 0x80
  | 3 => 0x800
  | 4 => 0x10000
  | _ => 0

/-- The character at the beginning of bytes. -/
def first? (bytes : List UInt8) : Option (Char × Nat) := do
  let b ← bytes.head?
  let (size, bits) ← lead? b
  let more := (bytes.drop 1).take (size - 1)
  if more.length + 1 < size || !more.all isContinuation then none
  else
    let n := more.foldl (fun n b => n * 64 + (b.toNat - 0x80)) bits
    -- neither forms longer than needed nor halves of pairs are characters
    if least size ≤ n && n.isValidChar then some (Char.ofNat n, size) else none

/-- How bytes are read.  Characters below 0x80 are always read, and nothing else is read as one. -/
structure Reading where
  /-- The characters that are read; of any other the bytes are read one by one. -/
  accepts : Char → Bool
  /-- The character for a byte that belongs to none. -/
  other : UInt8 → Char
  accepts_of_lt : ∀ c : Char, c.toNat < 0x80 → accepts c = true
  le_other : ∀ b : UInt8, 0x80 ≤ (other b).toNat

/-- Every character is read, and every byte between them is replaced. -/
def replacing : Reading where
  accepts _ := true
  other _ := replacement
  accepts_of_lt _ _ := rfl
  le_other _ := by decide

/-- Reads bytes; `fuel` is at least their number. -/
def chars (r : Reading) (fuel : Nat) (bytes : List UInt8) : List Char :=
  match fuel with
  | 0 => []
  | fuel + 1 =>
      match bytes with
      | [] => []
      | b :: rest =>
          match (first? bytes).filter fun found => r.accepts found.1 with
          | some (c, size) => c :: chars r fuel (bytes.drop size)
          | none => r.other b :: chars r fuel rest

def decoded (r : Reading) (bytes : List UInt8) : List Char :=
  chars r bytes.length bytes

def text (bytes : List UInt8) : String :=
  String.ofList (decoded replacing bytes)

/-- The bytes of characters. -/
def encoded (cs : List Char) : List UInt8 :=
  cs.flatMap String.utf8EncodeChar

end Utf8
end ApiPages

/-!
# Whole numbers in several bases

`Numeral.inBase?` reads a row of digits in a given base, `Numeral.prefixed?` one whose base shows in
its beginning: `0x`, `0b`, `0o`, or a leading zero for octal.  `Numeral.fitsWord` and
`Numeral.fitsUnsigned` are the numbers of 64 bits, with a sign and without one.
-/

namespace ApiPages
namespace Numeral

/-- The value of a digit; characters that are no digits get a value too large for any base. -/
def digitOf (c : Char) : Nat :=
  if c.isDigit then c.toNat - '0'.toNat
  else if 'a' ≤ c ∧ c ≤ 'z' then c.toNat - 'a'.toNat + 10
  else if 'A' ≤ c ∧ c ≤ 'Z' then c.toNat - 'A'.toNat + 10
  else 36

def isHexDigit (c : Char) : Bool := digitOf c < 16

/-- A non-empty row of digits in a base. -/
def inBase? (base : Nat) (ds : List Char) : Option Nat :=
  if ds.isEmpty || ds.any (fun d => base ≤ digitOf d) then none
  else some (ds.foldl (fun n d => n * base + digitOf d) 0)

/-- Digits whose base shows in their beginning. -/
def prefixed? (ds : List Char) : Option Nat :=
  match ds with
  | '0' :: 'x' :: rest | '0' :: 'X' :: rest => inBase? 16 rest
  | '0' :: 'b' :: rest | '0' :: 'B' :: rest => inBase? 2 rest
  | '0' :: 'o' :: rest | '0' :: 'O' :: rest => inBase? 8 rest
  | '0' :: d :: rest => inBase? 8 (d :: rest)
  | _ => inBase? 10 ds

/-- Whether a number fits into 64 bits with a sign. -/
def fitsWord (i : Int) : Bool :=
  -0x8000000000000000 ≤ i && i < 0x8000000000000000

/-- Whether a number fits into 64 bits without a sign. -/
def fitsUnsigned (n : Nat) : Bool :=
  n < 0x10000000000000000

end Numeral
end ApiPages

import ApiPages.Text.Utf8

/-!
# Base sixty-four

Bytes written in an alphabet of sixty-four characters, four characters for three bytes.  The last
group is filled up with equals signs, and line breaks do not count.

* `Base64.bytes?` reads the bytes;
* `Base64.decode?` reads a text.
-/

namespace ApiPages
namespace Base64

/-- The value of a character. -/
def value? (c : Char) : Option Nat :=
  if 'A' ≤ c && c ≤ 'Z' then some (c.toNat - 'A'.toNat)
  else if 'a' ≤ c && c ≤ 'z' then some (c.toNat - 'a'.toNat + 26)
  else if c.isDigit then some (c.toNat - '0'.toNat + 52)
  else if c == '+' then some 62
  else if c == '/' then some 63
  else none

/-- The bytes of characters that come in groups of four. -/
def groups? : List Char → Option (List UInt8)
  | [] => some []
  | [a, b, '=', '='] => do
      let n := (← value? a) * 64 + (← value? b)
      some [UInt8.ofNat (n / 16)]
  | [a, b, c, '='] => do
      let n := ((← value? a) * 64 + (← value? b)) * 64 + (← value? c)
      some [UInt8.ofNat (n / 1024), UInt8.ofNat (n / 4)]
  | a :: b :: c :: d :: rest => do
      let n := (((← value? a) * 64 + (← value? b)) * 64 + (← value? c)) * 64 + (← value? d)
      let more ← groups? rest
      some (UInt8.ofNat (n / 65536) :: UInt8.ofNat (n / 256) :: UInt8.ofNat n :: more)
  | _ => none

def bytes? (cs : List Char) : Option (List UInt8) :=
  groups? (cs.filter fun c => c != '\n' && c != '\r')

def decode? (s : String) : Option String :=
  (bytes? s.toList).map Utf8.text

end Base64
end ApiPages

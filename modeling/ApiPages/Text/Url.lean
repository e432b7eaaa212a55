import ApiPages.Text.Quoted
import ApiPages.Text.Search

/-!
# Web addresses

An address is sent in a normal form: what its path may not hold is written as percent signs with the
hexadecimal values of the bytes.

* `Url.decode` takes the percent signs out of a path;
* `Url.normalPath` and `Url.normal` give the normal form, or say why there is none.
-/

namespace ApiPages
namespace Url

/-! ## Characters -/

def isUnreserved (c : Char) : Bool :=
  c.isAlphanum || c == '-' || c == '_' || c == '.' || c == '~'

/-- The characters that are never encoded in a path. -/
def isPlain (c : Char) : Bool :=
  isUnreserved c || "$&+,/:;=@".toList.contains c

/-- The characters that may stand in a path that is encoded already. -/
def isAccepted (c : Char) : Bool :=
  isPlain c || "!'()*[]%".toList.contains c

def isControl (c : Char) : Bool :=
  c.toNat < 0x20 || c.toNat == 0x7F

/-! ## Paths -/

def hexByte? (a b : Char) : Option UInt8 := do
  let digit (c : Char) : Option Nat :=
    if c.isDigit then some (c.toNat - '0'.toNat)
    else if 'a' ≤ c && c ≤ 'f' then some (c.toNat - 'a'.toNat + 10)
    else if 'A' ≤ c && c ≤ 'F' then some (c.toNat - 'A'.toNat + 10)
    else none
  return UInt8.ofNat ((← digit a) * 16 + (← digit b))

/-- The bytes of a path, or the broken escape it holds. -/
def decode : List Char → Except String (List UInt8)
  | [] => .ok []
  | '%' :: a :: b :: rest =>
      match hexByte? a b with
      | some byte => (decode rest).map (byte :: ·)
      | none => .error (String.ofList ['%', a, b])
  | '%' :: rest => .error (String.ofList ('%' :: rest))
  | c :: rest => (decode rest).map ((String.singleton c).toUTF8.toList ++ ·)

def encodeByte (b : UInt8) : List Char :=
  let c := Char.ofNat b.toNat
  if b.toNat < 128 && isPlain c then [c]
  else '%' :: (Text.hexDigits 2 b.toNat).map Char.toUpper

def normalPath (cs : List Char) : Except String (List Char) :=
  (decode cs).map fun bytes => if cs.all isAccepted then cs else bytes.flatMap encodeByte

/-! ## Addresses -/

/-- Splits an address into the part before its path, and the rest. -/
def splitHost (cs : List Char) : List Char × List Char :=
  match Text.cut? ['/', '/'] cs with
  | some (scheme, rest) =>
      (scheme ++ '/' :: '/' :: rest.takeWhile (· != '/'), rest.dropWhile (· != '/'))
  | none => ([], cs)

def normal (url : String) : Except String String :=
  let cs := url.toList
  if cs.any isControl then .error "net/url: invalid control character in URL"
  else
    let isPath (c : Char) := c != '?' && c != '#'
    let (host, rest) := splitHost cs
    match normalPath (rest.takeWhile isPath) with
    | .ok path => .ok (String.ofList (host ++ path ++ rest.dropWhile isPath))
    | .error broken => .error ("invalid URL escape " ++ Text.quoted broken)

end Url
end ApiPages

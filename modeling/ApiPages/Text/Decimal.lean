/-!
# Decimal numbers

Decimal numerals with an optional fraction and exponent, kept exactly as a whole number times a
power of ten.

* `Decimal.ofChars?` reads a numeral;
* `Decimal.isTooLarge` says that it lies beyond the range of double precision;
* `Decimal.truncate` drops the fraction, `Decimal.positional` writes it without an exponent.
-/

namespace ApiPages

/-- The number `±digits · 10 ^ exponent`. -/
structure Decimal where
  negative : Bool := false
  digits : Nat
  exponent : Int := 0
  deriving DecidableEq, Repr

namespace Decimal

/-! ## Reading -/

def digitsValue (ds : List Char) : Nat :=
  ds.foldl (fun n d => n * 10 + (d.toNat - '0'.toNat)) 0

/-- Takes a sign off a numeral. -/
def sign (cs : List Char) : Bool × List Char :=
  match cs with
  | '-' :: rest => (true, rest)
  | '+' :: rest => (false, rest)
  | _ => (false, cs)

/-- The exponent part of a numeral, which may be empty but not broken. -/
def exponent? (cs : List Char) : Option Int :=
  match cs with
  | [] => some 0
  | c :: rest =>
      if c == 'e' || c == 'E' then
        let (negative, ds) := sign rest
        if ds.isEmpty || !ds.all Char.isDigit then none
        else
          let n := (digitsValue ds : Int)
          some (if negative then -n else n)
      else none

def ofChars? (cs : List Char) : Option Decimal :=
  let (negative, cs) := sign cs
  let whole := cs.takeWhile Char.isDigit
  let rest := cs.dropWhile Char.isDigit
  let (fraction, rest) := match rest with
    | '.' :: more => (more.takeWhile Char.isDigit, more.dropWhile Char.isDigit)
    | _ => ([], rest)
  if whole.isEmpty && fraction.isEmpty then none
  else
    (exponent? rest).map fun e =>
      { negative, digits := digitsValue (whole ++ fraction), exponent := e - fraction.length }

/-! ## Magnitude -/

/-- The number of decimal digits of a number that is not zero. -/
def length (d : Decimal) : Nat :=
  (Nat.toDigits 10 d.digits).length

/-- Whether the number rounds to no finite double. -/
def isTooLarge (d : Decimal) : Bool :=
  if d.digits == 0 then false
  else
    let top := (d.length : Int) + d.exponent
    if top > 310 then true
    else if top < 309 then false
    else
      let limit := (1 <<< 1024) - (1 <<< 970)
      if d.exponent < 0 then limit * Nat.pow 10 d.exponent.natAbs ≤ d.digits
      else limit ≤ d.digits * Nat.pow 10 d.exponent.toNat

/-- The number without its fraction.  A number too large for its power of ten to be worked out is
left out by the callers through `isTooLarge`. -/
def truncate (d : Decimal) : Int :=
  let n : Nat :=
    if d.digits == 0 then 0
    else if d.exponent < 0 then
      if d.length < d.exponent.natAbs then 0 else d.digits / Nat.pow 10 d.exponent.natAbs
    else d.digits * Nat.pow 10 d.exponent.toNat
  if d.negative then -(n : Int) else n

/-! ## Writing -/

/-- Digits before and after the point, without an exponent and without idle zeros at the end. -/
def positional (d : Decimal) : String :=
  let ds := Nat.toDigits 10 d.digits
  let body :=
    if d.digits == 0 then ['0']
    else if d.exponent ≥ 0 then ds ++ List.replicate d.exponent.toNat '0'
    else
      let places := d.exponent.natAbs
      let padded := List.replicate (places + 1 - ds.length) '0' ++ ds
      let whole := padded.take (padded.length - places)
      let fraction := ((padded.drop (padded.length - places)).reverse.dropWhile (· == '0')).reverse
      if fraction.isEmpty then whole else whole ++ '.' :: fraction
  String.ofList (if d.negative then '-' :: body else body)

end Decimal
end ApiPages

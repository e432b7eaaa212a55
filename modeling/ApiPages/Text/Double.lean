import ApiPages.Text.Decimal

/-!
# Numbers of double precision

A number in a settings file is kept in double precision before its text is wanted again.  The text
is the shortest decimal that rounds to the same number.

* `Double.ofDecimal` rounds a decimal number, `Double.truncate` drops its fraction;
* `Double.shortest` is the decimal with the fewest digits that rounds to a number, and the nearest
  of those;
* `Decimal.rounded` puts the two together.

Everything is worked out exactly on whole numbers.
-/

namespace ApiPages

/-- The number `mantissa · 2 ^ exponent`. -/
structure Double where
  mantissa : Nat
  exponent : Int
  deriving DecidableEq, Repr

namespace Double

/-! ## Rounding -/

/-- The whole number nearest to a quotient; a half goes to the even neighbour. -/
def roundDiv (num den : Nat) : Nat :=
  let q := num / den
  let r := 2 * (num % den)
  if r < den then q else if den < r then q + 1 else q + q % 2

/-- A number times a power of two, as a fraction. -/
def scaled (n : Nat) (e : Int) : Nat × Nat :=
  (n <<< e.toNat, 1 <<< (-e).toNat)

/-- The largest power of two that is not above a positive fraction. -/
def binade (num den : Nat) : Int :=
  let guess : Int := (num.log2 : Int) - den.log2
  if num <<< (-guess).toNat < den <<< guess.toNat then guess - 1 else guess

/-- The number nearest to a fraction, with 53 bits of precision where the range allows it. -/
def ofFraction (num den : Nat) : Double :=
  if num == 0 then { mantissa := 0, exponent := -1074 }
  else
    let e := max (binade num den) (-1022) - 52
    let m := roundDiv (num <<< (-e).toNat) (den <<< e.toNat)
    if m == 1 <<< 53 then { mantissa := 1 <<< 52, exponent := e + 1 }
    else { mantissa := m, exponent := e }

/-- The number nearest to the size of a decimal number. -/
def ofDecimal (d : Decimal) : Double :=
  if d.digits == 0 || (d.length : Int) + d.exponent < -340 then { mantissa := 0, exponent := -1074 }
  else
    ofFraction (d.digits * Nat.pow 10 d.exponent.toNat) (Nat.pow 10 (-d.exponent).toNat)

/-- The number without its fraction. -/
def truncate (x : Double) : Nat :=
  (x.mantissa <<< x.exponent.toNat) >>> (-x.exponent).toNat

/-! ## Shortest decimals -/

/-- The numbers that round to `x` in quarters of its last place: the lower end, the upper end, and
whether the ends belong to them. -/
def interval (x : Double) : Nat × Nat × Bool :=
  let isEdge := x.mantissa == 1 <<< 52 && -1074 < x.exponent
  (4 * x.mantissa - (if isEdge then 1 else 2), 4 * x.mantissa + 2, x.mantissa % 2 == 0)

/-- Compares `c · 10 ^ p` with `b` quarters of the last place of `x`. -/
def compareTo (x : Double) (c : Nat) (p : Int) (b : Nat) : Ordering :=
  let (num, den) := scaled b (x.exponent - 2)
  compare (c * Nat.pow 10 p.toNat * den) (num * Nat.pow 10 (-p).toNat)

def contains (x : Double) (c : Nat) (p : Int) : Bool :=
  let (low, high, isClosed) := x.interval
  let below := x.compareTo c p low
  let above := x.compareTo c p high
  (below == .gt || (isClosed && below == .eq)) && (above == .lt || (isClosed && above == .eq))

/-- The decimals at a place that round to `x`, if there are any; of two the nearer. -/
def atPlace? (x : Double) (p : Int) : Option Decimal :=
  let (num, den) := scaled x.mantissa x.exponent
  let whole := num * Nat.pow 10 (-p).toNat
  let unit := den * Nat.pow 10 p.toNat
  let c := whole / unit
  let isLow := x.contains c p
  let isHigh := x.contains (c + 1) p
  let nearest := roundDiv whole unit
  if isLow && isHigh then some { digits := nearest, exponent := p }
  else if isLow then some { digits := c, exponent := p }
  else if isHigh then some { digits := c + 1, exponent := p }
  else none

/-- The place of the first digit. -/
def firstPlace (x : Double) : Int :=
  let (num, den) := scaled x.mantissa x.exponent
  ((Nat.toDigits 10 (num * Nat.pow 10 340 / den)).length : Int) - 341

/-- The decimal with the fewest digits that rounds to `x`; 17 digits are always enough. -/
def shortest (x : Double) : Decimal :=
  if x.mantissa == 0 then { digits := 0 }
  else
    ((List.range 20).findSome? fun (i : Nat) => x.atPlace? (x.firstPlace + 1 - i)).getD
      { digits := 0 }

end Double

/-- The number as it reads after being kept in double precision. -/
def Decimal.rounded (d : Decimal) : Decimal :=
  { (Double.ofDecimal d).shortest with negative := d.negative }

end ApiPages

import StackIr.Decimal.Binary64

/-! # Shortest decimal digits

    The digits of a number are the fewest that read back as the same number, and of those
    the nearest to it.  For one digit, two digits and so on, the two neighbours of the
    number among the decimals with that many digits are tested against the interval of
    reals that round to the number. -/

namespace StackIr.Decimal

/-- A positive decimal in scientific form: its digits without trailing zeros, the first
    standing before the point, and its exponent. -/
structure Scientific where
  digits : List Char
  exponent : Int
  deriving DecidableEq, Repr

/-- A fraction with a positive denominator. -/
structure Ratio where
  num : Nat
  den : Nat

namespace Ratio

def lt (a b : Ratio) : Bool :=
  a.num * b.den < b.num * a.den

def le (a b : Ratio) : Bool :=
  a.num * b.den ≤ b.num * a.den

/-- The fraction `n * 2 ^ e`. -/
def ofBinary (n : Nat) (e : Int) : Ratio :=
  if e < 0 then ⟨n, Nat.pow 2 (-e).toNat⟩ else ⟨n * Nat.pow 2 e.toNat, 1⟩

/-- The fraction `n * 10 ^ e`. -/
def ofDecimal (n : Nat) (e : Int) : Ratio :=
  if e < 0 then ⟨n, Nat.pow 10 (-e).toNat⟩ else ⟨n * Nat.pow 10 e.toNat, 1⟩

/-- The greatest whole number of steps of `10 ^ e` in a fraction. -/
def stepsBelow (r : Ratio) (e : Int) : Nat :=
  if e < 0 then r.num * Nat.pow 10 (-e).toNat / r.den else r.num / (r.den * Nat.pow 10 e.toNat)

/-- The exponent of a positive fraction in scientific form. -/
def scientificExponent (r : Ratio) : Int :=
  if r.num ≥ r.den then
    (Binary64.decimalLength (r.num / r.den) : Int) - 1
  else
    let length := Binary64.decimalLength (r.den / r.num)
    if r.num * Nat.pow 10 (length - 1) ≥ r.den then -((length : Int) - 1) else -(length : Int)

end Ratio

/-- The reals that round to a number: everything between the two ends, which belong to it
    when `closed`. -/
structure Rounding where
  low : Ratio
  value : Ratio
  high : Ratio
  closed : Bool

/-- The reals that round to `m * 2 ^ q`.  Below a power of two the gap is half as wide. -/
def Rounding.of (m : Nat) (q : Int) : Rounding where
  low :=
    if m = Binary64.leastNormal && q > Binary64.leastExponent then
      Ratio.ofBinary (4 * m - 1) (q - 2)
    else
      Ratio.ofBinary (2 * m - 1) (q - 1)
  value := Ratio.ofBinary m q
  high := Ratio.ofBinary (2 * m + 1) (q - 1)
  closed := m % 2 == 0

/-- Whether a decimal rounds to the number. -/
def Rounding.holds (i : Rounding) (r : Ratio) : Bool :=
  if i.closed then i.low.le r && r.le i.high else i.low.lt r && r.lt i.high

/-- The better of the two neighbours `d` and `d + 1` of the value in steps of `10 ^ e`, if
    one of them rounds to the number. -/
def Rounding.neighbour? (i : Rounding) (e : Int) : Option Nat :=
  let d := i.value.stepsBelow e
  let below := i.holds (Ratio.ofDecimal d e)
  let above := i.holds (Ratio.ofDecimal (d + 1) e)
  -- Twice the value against the midpoint of the two neighbours.
  let middle := Ratio.ofDecimal (2 * d + 1) e
  let twice : Ratio := ⟨2 * i.value.num, i.value.den⟩
  if below && above then
    if twice.lt middle then some d
    else if middle.lt twice then some (d + 1)
    else some (if d % 2 = 0 then d else d + 1)
  else if below then some d
  else if above then some (d + 1)
  else none

/-- The first grid of decimals that has a neighbour that rounds to the number, looking at
    `fuel` grids from steps of `10 ^ e` on down. -/
def Rounding.search (i : Rounding) : (fuel : Nat) → (e : Int) → Nat × Int
  | 0, e => (i.value.stepsBelow e, e)
  | fuel + 1, e =>
    match i.neighbour? e with
    | some d => (d, e)
    | none => i.search fuel (e - 1)

/-- Digits without the zeros at their end. -/
def trimZeros (digits : List Char) : List Char :=
  (digits.reverse.dropWhile (· == '0')).reverse

/-- The shortest digits of the positive number `m * 2 ^ q`. -/
def shortest (m : Nat) (q : Int) : Scientific :=
  let interval := Rounding.of m q
  let (d, e) := interval.search 17 interval.value.scientificExponent
  let digits := Nat.toDigits 10 d
  ⟨trimZeros digits, e + digits.length - 1⟩

end StackIr.Decimal

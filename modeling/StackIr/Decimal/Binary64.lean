/-! # Binary floating point

    A binary64 number is its 64 bits.  What a finite one means is `m * 2 ^ q` with natural
    `m` and integer `q`, and `ofRatio` finds the number nearest to a fraction, to even when
    two are equally near.  All of it is exact arithmetic on natural numbers. -/

namespace StackIr

/-- A binary64 floating point number. -/
structure Binary64 where
  bits : UInt64
  deriving DecidableEq, Repr

namespace Binary64

/-- What a number means. -/
inductive Meaning where
  | nan
  | infinite (negative : Bool)
  /-- The number `mantissa * 2 ^ exponent`, or its opposite. -/
  | finite (negative : Bool) (mantissa : Nat) (exponent : Int)
  deriving DecidableEq, Repr

/-- The exponent of the smallest positive number. -/
def leastExponent : Int := -1074

/-- The mantissas of normal numbers start here. -/
def leastNormal : Nat := Nat.pow 2 52

def isNegative (x : Binary64) : Bool :=
  x.bits.toNat ≥ Nat.pow 2 63

/-- The value of a number. -/
def meaning (x : Binary64) : Meaning :=
  let exponent := x.bits.toNat / leastNormal % 2048
  let fraction := x.bits.toNat % leastNormal
  if exponent = 2047 then
    if fraction = 0 then .infinite x.isNegative else .nan
  else if exponent = 0 then
    .finite x.isNegative fraction leastExponent
  else
    .finite x.isNegative (leastNormal + fraction) (leastExponent + exponent - 1)

/-- Whether a number is neither infinite nor undefined. -/
def isFinite (x : Binary64) : Bool :=
  match x.meaning with
  | .finite .. => true
  | _ => false

private def signBits (negative : Bool) : Nat :=
  if negative then Nat.pow 2 63 else 0

def infinity (negative : Bool) : Binary64 :=
  ⟨(signBits negative + 2047 * leastNormal).toUInt64⟩

def nan : Binary64 :=
  ⟨0x7FF8000000000001⟩

def zero (negative : Bool) : Binary64 :=
  ⟨(signBits negative).toUInt64⟩

/-- The number `mantissa * 2 ^ exponent`, for a mantissa below `2 ^ 53` that is normal
    unless the exponent is the least one. -/
def ofParts (negative : Bool) (mantissa : Nat) (exponent : Int) : Binary64 :=
  if mantissa < leastNormal then
    ⟨(signBits negative + mantissa).toUInt64⟩
  else
    let field := (exponent - leastExponent + 1).toNat
    if field ≥ 2047 then infinity negative
    else ⟨(signBits negative + field * leastNormal + (mantissa - leastNormal)).toUInt64⟩

/-- The whole number nearest to `num / den`, to even at a tie. -/
def roundRatio (num den : Nat) : Nat :=
  let floor := num / den
  let rest := 2 * (num % den)
  if rest > den || (rest == den && floor % 2 == 1) then floor + 1 else floor

/-- The two sides of `num / den` after dividing it by `2 ^ exponent`. -/
def scaleRatio (num den : Nat) (exponent : Int) : Nat × Nat :=
  if exponent < 0 then (num * Nat.pow 2 (-exponent).toNat, den)
  else (num, den * Nat.pow 2 exponent.toNat)

/-- The exponent at which `num / den` has a mantissa of 53 bits, or the least exponent. -/
def exponentOf (num den : Nat) : Int :=
  let guess : Int := (Nat.log2 num : Int) - Nat.log2 den - 52
  let (n, d) := scaleRatio num den guess
  let exact := if n / d < leastNormal then guess - 1 else guess
  max exact leastExponent

/-- The number nearest to the fraction `num / den`, to even at a tie. -/
def ofRatio (negative : Bool) (num den : Nat) : Binary64 :=
  if num = 0 then
    zero negative
  else
    let exponent := exponentOf num den
    let (n, d) := scaleRatio num den exponent
    let mantissa := roundRatio n d
    if mantissa = 2 * leastNormal then
      ofParts negative leastNormal (exponent + 1)
    else
      ofParts negative mantissa exponent

/-- The number of decimal digits of `n`; zero has one. -/
def decimalLength (n : Nat) : Nat :=
  (Nat.toDigits 10 n).length

/-- The number nearest to `digits * 10 ^ exponent`.  Exponents far outside the range of the
    format are answered without computing the power. -/
def ofDecimal (negative : Bool) (digits : Nat) (exponent : Int) : Binary64 :=
  let magnitude := (decimalLength digits : Int) + exponent
  if digits = 0 || magnitude < -330 then
    zero negative
  else if magnitude > 310 then
    infinity negative
  else if exponent < 0 then
    ofRatio negative digits (Nat.pow 10 (-exponent).toNat)
  else
    ofRatio negative (digits * Nat.pow 10 exponent.toNat) 1

/-- The number nearest to a whole number. -/
def ofInt (i : Int) : Binary64 :=
  ofRatio (i < 0) i.natAbs 1

/-- The absolute value of a finite number as a fraction. -/
def toRatio (x : Binary64) : Nat × Nat :=
  match x.meaning with
  | .finite _ m q => if q < 0 then (m, Nat.pow 2 (-q).toNat) else (m * Nat.pow 2 q.toNat, 1)
  | _ => (0, 1)

/-- The sum of two numbers that are finite and not negative. -/
def addMagnitudes (x y : Binary64) : Binary64 :=
  let (a, b) := x.toRatio
  let (c, d) := y.toRatio
  ofRatio false (a * d + c * b) (b * d)

/-- The quotient of two numbers that are finite and not negative. -/
def divMagnitudes (x y : Binary64) : Binary64 :=
  let (a, b) := x.toRatio
  let (c, d) := y.toRatio
  ofRatio false (a * d) (b * c)

end Binary64

end StackIr

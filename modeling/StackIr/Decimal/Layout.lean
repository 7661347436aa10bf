import StackIr.Decimal.Shortest

/-! # Number texts

    Where a number is written positionally and where with an exponent is a matter of
    layout; the digits are the shortest ones in every layout. -/

namespace StackIr.Decimal

/-- The decisions of a number text. -/
structure Layout where
  /-- The least exponent that is written positionally. -/
  plainFrom : Int
  /-- The least exponent above it that is not. -/
  plainBelow : Int
  /-- The least number of digits of a written exponent. -/
  exponentWidth : Nat

/-- JSON numbers are positional from a millionth up to 21 digits. -/
def Layout.json : Layout := ⟨-6, 21, 1⟩

/-- Numbers in messages are positional from a ten thousandth up to six digits, and their
    exponents have at least two digits. -/
def Layout.general : Layout := ⟨-4, 6, 2⟩

/-- Digits written positionally. -/
def Scientific.plain (s : Scientific) : List Char :=
  if s.exponent < 0 then
    '0' :: '.' :: (List.replicate ((-s.exponent).toNat - 1) '0' ++ s.digits)
  else
    let whole := s.exponent.toNat + 1
    let digits := s.digits ++ List.replicate (whole - s.digits.length) '0'
    if digits.length ≤ whole then digits
    else digits.take whole ++ '.' :: digits.drop whole

/-- Digits written with an exponent. -/
def Scientific.withExponent (s : Scientific) (width : Nat) : List Char :=
  let power := Nat.toDigits 10 s.exponent.natAbs
  let mantissa :=
    match s.digits with
    | [] => []
    | [d] => [d]
    | d :: rest => d :: '.' :: rest
  mantissa ++ 'e' :: (if s.exponent < 0 then '-' else '+') ::
    (List.replicate (width - power.length) '0' ++ power)

/-- The text of a positive decimal. -/
def Layout.positive (l : Layout) (s : Scientific) : List Char :=
  if l.plainFrom ≤ s.exponent && s.exponent < l.plainBelow then s.plain
  else s.withExponent l.exponentWidth

/-- The text of a number. -/
def Layout.render (l : Layout) (x : Binary64) : String :=
  match x.meaning with
  | .nan => "NaN"
  | .infinite negative => if negative then "-Inf" else "+Inf"
  | .finite negative m q =>
    let text := if m = 0 then ['0'] else l.positive (shortest m q)
    String.ofList (if negative then '-' :: text else text)

/-- A number that is not negative with a fixed number of decimal places; a tie goes to the
    even neighbour. -/
def fixed (places : Nat) (x : Binary64) : String :=
  let (num, den) := x.toRatio
  let scaled := Nat.toDigits 10 (Binary64.roundRatio (num * Nat.pow 10 places) den)
  let digits := List.replicate (places + 1 - scaled.length) '0' ++ scaled
  let whole := digits.length - places
  if places = 0 then String.ofList digits
  else String.ofList (digits.take whole ++ '.' :: digits.drop whole)

end StackIr.Decimal

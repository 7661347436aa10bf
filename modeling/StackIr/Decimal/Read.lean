import StackIr.Decimal.Binary64

/-! # Reading numbers

    Whole numbers in bases two, eight, ten and sixteen, and decimal floating point
    numbers. -/

namespace StackIr.Decimal

/-- The value of a digit below sixteen. -/
def digitValue? (c : Char) : Option Nat :=
  if '0' ≤ c && c ≤ '9' then some (c.toNat - 48)
  else if 'a' ≤ c && c ≤ 'f' then some (c.toNat - 87)
  else if 'A' ≤ c && c ≤ 'F' then some (c.toNat - 55)
  else none

/-- The value of digits in a base, after the digits that give `sofar`. -/
def digitsFrom? (base : Nat) (sofar : Nat) : List Char → Option Nat
  | [] => some sofar
  | c :: rest =>
    match digitValue? c with
    | some d => if d < base then digitsFrom? base (sofar * base + d) rest else none
    | none => none

/-- The value of at least one digit in a base. -/
def digits? (base : Nat) : List Char → Option Nat
  | [] => none
  | cs => digitsFrom? base 0 cs

/-- A whole number without a sign whose start gives its base: `0b`, `0o` and `0x` before at
    least one digit, and a leading zero for base eight. -/
def based? : List Char → Option Nat
  | '0' :: b :: d :: rest =>
    if b = 'b' || b = 'B' then digits? 2 (d :: rest)
    else if b = 'o' || b = 'O' then digits? 8 (d :: rest)
    else if b = 'x' || b = 'X' then digits? 16 (d :: rest)
    else digits? 8 (b :: d :: rest)
  | '0' :: rest => digitsFrom? 8 0 rest
  | cs => digits? 10 cs

/-- A sign and what follows it. -/
def signed : List Char → Bool × List Char
  | '-' :: rest => (true, rest)
  | '+' :: rest => (false, rest)
  | cs => (false, cs)

/-- The whole numbers of 64 bits with a sign. -/
def fitsInt64 (i : Int) : Bool :=
  -9223372036854775808 ≤ i && i ≤ 9223372036854775807

/-- The whole numbers of 64 bits without a sign. -/
def fitsUInt64 (n : Nat) : Bool :=
  n < 18446744073709551616

/-- A whole number of 64 bits with an optional sign, read by `unsigned?`. -/
def int64? (unsigned? : List Char → Option Nat) (cs : List Char) : Option Int :=
  let (negative, rest) := signed cs
  match unsigned? rest with
  | some n =>
    let i : Int := if negative then -n else n
    if fitsInt64 i then some i else none
  | none => none

/-- A decimal with digits before and after a point and an exponent, in which the digits
    before or after the point may be missing, but not both. -/
structure Literal where
  whole : List Char
  fraction : List Char
  exponent : Int
  deriving Repr

/-- The exponent part of a decimal: none, or a mark, an optional sign and digits. -/
def exponentPart? : List Char → Option Int
  | [] => some 0
  | c :: rest =>
    if c = 'e' || c = 'E' then
      let (negative, digits) := signed rest
      match digits? 10 digits with
      | some n => some (if negative then -n else n)
      | none => none
    else none

/-- A decimal without a sign. -/
def literal? (cs : List Char) : Option Literal :=
  let whole := cs.takeWhile Char.isDigit
  let rest := cs.dropWhile Char.isDigit
  match rest with
  | '.' :: after =>
    let fraction := after.takeWhile Char.isDigit
    if whole.isEmpty && fraction.isEmpty then none
    else (exponentPart? (after.dropWhile Char.isDigit)).map (⟨whole, fraction, ·⟩)
  | _ => if whole.isEmpty then none else (exponentPart? rest).map (⟨whole, [], ·⟩)

/-- The number nearest to a decimal. -/
def Literal.toBinary64 (negative : Bool) (l : Literal) : Binary64 :=
  let digits := (digitsFrom? 10 0 (l.whole ++ l.fraction)).getD 0
  Binary64.ofDecimal negative digits (l.exponent - l.fraction.length)

/-- A finite number from its decimal text.  Texts that round to an infinity are refused. -/
def float? (cs : List Char) : Option Binary64 :=
  let (negative, rest) := signed cs
  match literal? rest with
  | some l =>
    let x := l.toBinary64 negative
    if x.isFinite then some x else none
  | none => none

/-- Whether every underscore stands between two digits. -/
def underscoresSeparate : (afterDigit : Bool) → List Char → Bool
  | _, [] => true
  | afterDigit, '_' :: rest =>
    match rest with
    | d :: _ => afterDigit && d.isDigit && underscoresSeparate false rest
    | [] => false
  | _, c :: rest => underscoresSeparate c.isDigit rest

/-- A finite number from a decimal text that may have underscores between digits. -/
def separatedFloat? (cs : List Char) : Option Binary64 :=
  if underscoresSeparate false cs then float? (cs.filter (· != '_')) else none

end StackIr.Decimal

import StackIr.Command.Fault
import StackIr.Decimal.Read
import StackIr.Text.Cut

/-! # Flags

    A flag has a name, and may have a letter.  A switch needs no value; every other flag
    takes one.  The values of flags are kept as they were given, in order. -/

namespace StackIr.Command

/-- What a flag takes. -/
inductive FlagKind where
  | switch
  | text
  /-- A text that may be given several times. -/
  | texts
  | number
  deriving DecidableEq, Repr

/-- A flag. -/
structure Flag where
  name : String
  letter : Option Char := none
  kind : FlagKind
  usage : String
  /-- Its value when it is not given. -/
  default : String := ""
  deriving DecidableEq, Repr

/-- The value of a switch. -/
def switchValue? (text : String) : Option Bool :=
  if ["1", "t", "T", "TRUE", "true", "True"].contains text then some true
  else if ["0", "f", "F", "FALSE", "false", "False"].contains text then some false
  else none

/-! ## Whole numbers -/

/-- The base of a number, its digits, and whether something stands before them that gives
    the base. -/
def baseOf : List Char → Nat × List Char × Bool
  | '0' :: b :: d :: rest =>
    if b = 'b' || b = 'B' then (2, d :: rest, true)
    else if b = 'o' || b = 'O' then (8, d :: rest, true)
    else if b = 'x' || b = 'X' then (16, d :: rest, true)
    else (8, b :: d :: rest, true)
  | '0' :: d :: rest => (8, d :: rest, true)
  | cs => (10, cs, false)

/-- Reads digits until they are all read or the number is too large for 64 bits.
    Underscores are passed over. -/
def readDigits (base : Nat) (sofar : Nat) : List Char → Except ValueFault Nat
  | [] => .ok sofar
  | c :: rest =>
    if c = '_' then readDigits base sofar rest
    else
      match Decimal.digitValue? c with
      | none => .error .notNumber
      | some d =>
        if d ≥ base then .error .notNumber
        else if Decimal.fitsUInt64 (sofar * base + d) then readDigits base (sofar * base + d) rest
        else .error .outOfRange

/-- Whether every underscore stands between digits, or after what gives the base. -/
def underscoresFit : (afterDigit : Bool) → List Char → Bool
  | _, [] => true
  | afterDigit, c :: rest =>
    if c = '_' then
      afterDigit &&
        (match rest with
          | d :: _ => (Decimal.digitValue? d).isSome
          | [] => false) && underscoresFit false rest
    else underscoresFit true rest

/-- A whole number of 64 bits, in the base that its start gives. -/
def numberValue (text : String) : Except ValueFault Int :=
  let (negative, cs) := Decimal.signed text.toList
  let (base, digits, marked) := baseOf cs
  if digits.isEmpty then .error .notNumber
  else do
    let n ← readDigits base 0 digits
    let i : Int := if negative then -n else n
    if ¬ underscoresFit marked digits then .error .notNumber
    else if Decimal.fitsInt64 i then .ok i
    else .error .outOfRange

/-! ## Values -/

namespace Flag

/-- The name of a flag in a message. -/
def shown (f : Flag) : String :=
  match f.letter with
  | some c => "-" ++ String.singleton c ++ ", --" ++ f.name
  | none => "--" ++ f.name

/-- Whether a flag can be given without a value. -/
def isSwitch (f : Flag) : Bool :=
  f.kind = .switch

/-- A value for a flag, if it takes it. -/
def take (f : Flag) (value : String) : Except Fault (String × String) :=
  match f.kind with
  | .switch =>
    if (switchValue? value).isSome then .ok (f.name, value)
    else .error (.invalidValue value f.shown .notSwitch)
  | .number =>
    match numberValue value with
    | .ok _ => .ok (f.name, value)
    | .error reason => .error (.invalidValue value f.shown reason)
  | .text | .texts => .ok (f.name, value)

end Flag

/-- The values that were given, in order. -/
abbrev Values := List (String × String)

namespace Values

/-- All values of a flag. -/
def texts (vs : Values) (name : String) : List String :=
  (vs.filter fun (n, _) => n = name).map Prod.snd

/-- The last value of a flag, or its default. -/
def text (vs : Values) (f : Flag) : String :=
  (vs.texts f.name).getLast?.getD f.default

/-- Whether a switch is on. -/
def switch (vs : Values) (f : Flag) : Bool :=
  (switchValue? (vs.text f)).getD false

end Values

end StackIr.Command

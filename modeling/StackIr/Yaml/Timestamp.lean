import StackIr.Decimal.Read

/-! # Timestamps

    A plain scalar may be a date, a date and a time of day with a zone, or a date and a time
    of day after spaces.  Only whether it is one is told here. -/

namespace StackIr.Yaml.Timestamp

/-- A number of one or two digits at the start of a text. -/
def number? : List Char → Option (Nat × List Char)
  | a :: b :: rest =>
    if !a.isDigit then none
    else if b.isDigit then some ((a.toNat - 48) * 10 + (b.toNat - 48), rest)
    else some (a.toNat - 48, b :: rest)
  | [a] => if a.isDigit then some (a.toNat - 48, []) else none
  | [] => none

/-- A number of one or two digits that lies within bounds. -/
def numberIn? (low high : Nat) (cs : List Char) : Option (Nat × List Char) :=
  match number? cs with
  | some (n, rest) => if low ≤ n && n ≤ high then some (n, rest) else none
  | none => none

/-- The rest of a text after a character. -/
def after? (c : Char) : List Char → Option (List Char)
  | d :: rest => if d = c then some rest else none
  | [] => none

def isLeapYear (year : Nat) : Bool :=
  year % 4 == 0 && (year % 100 != 0 || year % 400 == 0)

def daysIn (year month : Nat) : Nat :=
  if month = 2 then (if isLeapYear year then 29 else 28)
  else if month = 4 || month = 6 || month = 9 || month = 11 then 30
  else 31

/-- What follows a date at the start of a text. -/
def date? (cs : List Char) : Option (List Char) := do
  let digits := cs.takeWhile Char.isDigit
  if digits.length ≠ 4 then none
  else
    let year ← Decimal.digits? 10 digits
    let rest ← after? '-' (cs.drop 4)
    let (month, rest) ← numberIn? 1 12 rest
    let rest ← after? '-' rest
    let (day, rest) ← number? rest
    if 1 ≤ day && day ≤ daysIn year month then some rest else none

/-- A text without the fraction of a second at its start. -/
def dropFraction : List Char → List Char
  | c :: d :: rest =>
    if (c = '.' || c = ',') && d.isDigit then rest.dropWhile Char.isDigit else c :: d :: rest
  | cs => cs

/-- What follows a time of day at the start of a text. -/
def timeOfDay? (cs : List Char) : Option (List Char) := do
  let (_, rest) ← numberIn? 0 23 cs
  let rest ← after? ':' rest
  let (_, rest) ← numberIn? 0 59 rest
  let rest ← after? ':' rest
  let (_, rest) ← numberIn? 0 59 rest
  some (dropFraction rest)

/-- The value of two digits. -/
def twoDigits? (a b : Char) : Option Nat :=
  if a.isDigit && b.isDigit then some ((a.toNat - 48) * 10 + (b.toNat - 48)) else none

/-- Whether a text is a zone: `Z`, or a sign, hours and minutes. -/
def isZone : List Char → Bool
  | ['Z'] => true
  | [sign, a, b, ':', c, d] =>
    (sign == '+' || sign == '-') &&
      (twoDigits? a b).any (· ≤ 24) && (twoDigits? c d).any (· ≤ 60)
  | _ => false

/-- Whether a text is a timestamp. -/
def isTimestamp (cs : List Char) : Bool :=
  match date? cs with
  | none => false
  | some [] => true
  | some (c :: rest) =>
    if c = 'T' || c = 't' then (timeOfDay? rest).any isZone
    else if c = ' ' then (timeOfDay? (rest.dropWhile (· == ' '))).any List.isEmpty
    else false

end StackIr.Yaml.Timestamp

import StackIr.Decimal.Layout
import StackIr.Json.Basic
import StackIr.Text.Cut

/-! # Times of log entries

    A time is a number of nanoseconds.  It is written as a date, as a number of seconds, or
    as the time since the start of the program. -/

namespace StackIr.Log

/-- Nanoseconds since the start of 1970 in universal time. -/
structure Instant where
  nanoseconds : Int
  deriving DecidableEq, Repr

namespace Instant

/-- The least number of digits that a number is written with. -/
def padded (width : Nat) (n : Nat) : String :=
  let digits := Nat.toDigits 10 n
  String.ofList (List.replicate (width - digits.length) '0' ++ digits)

/-- A date. -/
structure Date where
  year : Nat
  month : Nat
  day : Nat
  deriving DecidableEq, Repr

/-- The date that is `days` after the first of January 1970.  Years are counted from March
    on, so that the day that leap years add is the last of its year, and in cycles of 400
    years, which all have the same number of days. -/
def Date.ofDays (days : Int) : Date :=
  let shifted := days + 719468
  let cycle := shifted.fdiv 146097
  let day := (shifted - cycle * 146097).toNat
  let year := (day - day / 1460 + day / 36524 - day / 146096) / 365
  let dayOfYear := day - (365 * year + year / 4 - year / 100)
  let month := (5 * dayOfYear + 2) / 153
  let early := month ≥ 10
  { year := (cycle * 400 + year + (if early then 1 else 0)).toNat
    month := if early then month - 9 else month + 3
    day := dayOfYear - (153 * month + 2) / 5 + 1 }

/-- Nanoseconds in a day. -/
def dayLength : Int := 86400000000000

/-- The date of a time. -/
def date (t : Instant) : Date :=
  .ofDays (t.nanoseconds.fdiv dayLength)

/-- Nanoseconds since midnight. -/
def sinceMidnight (t : Instant) : Nat :=
  (t.nanoseconds.fmod dayLength).toNat

def Date.text (d : Date) : String :=
  padded 4 d.year ++ "-" ++ padded 2 d.month ++ "-" ++ padded 2 d.day

/-- The hours, minutes and seconds of a time. -/
def clock (t : Instant) : String :=
  let seconds := t.sinceMidnight / 1000000000
  padded 2 (seconds / 3600) ++ ":" ++ padded 2 (seconds / 60 % 60) ++ ":" ++
    padded 2 (seconds % 60)

/-- A time with its date, to the millisecond. -/
def iso (t : Instant) : String :=
  t.date.text ++ "T" ++ t.clock ++ "." ++ padded 3 (t.sinceMidnight / 1000000 % 1000) ++ "Z"

/-- A time as seconds since 1970.  The nanoseconds are kept in 64 bits. -/
def seconds (t : Instant) : String :=
  let ns := t.nanoseconds.bmod (Nat.pow 2 64)
  let x := Binary64.divMagnitudes (.ofInt ns.natAbs) (.ofInt 1000000000)
  match x.meaning with
  | .finite _ m q =>
    let text := if m = 0 then ['0'] else (Decimal.shortest m q).plain
    String.ofList (if ns < 0 then '-' :: text else text)
  | _ => ""

/-! ## Offsets -/

/-- The nanoseconds from one time to another, at most what 64 bits hold. -/
def since (t start : Instant) : Int :=
  max (-9223372036854775808) (min 9223372036854775807 (t.nanoseconds - start.nanoseconds))

/-- A length of time that is not negative in units of `unit` nanoseconds.  Whole units and
    the rest are converted separately. -/
def inUnits (unit : Nat) (n : Nat) : Binary64 :=
  .addMagnitudes (.ofInt (n / unit : Nat))
    (.divMagnitudes (.ofInt (n % unit : Nat)) (.ofInt unit))

/-- A length of time with one decimal place in its column. -/
def column (unit : Nat) (n : Nat) : String :=
  Text.padLeft 5 (Decimal.fixed 1 (inUnits unit n))

/-- The start and the end of dimmed text. -/
def dimmed (colored : Bool) (s : String) : String :=
  if colored then "\x1b[90m" ++ s ++ "\x1b[0m" else s

/-- A length of time: milliseconds below a second, seconds below five minutes, and
    otherwise minutes. -/
def offsetText (colored : Bool) (ns : Int) : String :=
  if ns < 1000000000 then
    " " ++ dimmed colored
      (Text.padLeft 3 (String.ofList (Json.intText (ns.tdiv 1000000))) ++ "ms")
  else if ns < 300000000000 then
    dimmed colored (column 1000000000 ns.toNat ++ "s")
  else
    dimmed colored (column 60000000000 ns.toNat ++ "m")

end Instant

end StackIr.Log

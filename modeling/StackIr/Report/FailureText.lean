import StackIr.Failure

/-! # Failures on the screen

    Every failure is numbered.  Several failures get a heading and are listed one by one,
    to any depth; an unclosed placeholder is pointed at. -/

namespace StackIr.Report

/-- The colours of a report. -/
inductive Paint where
  | failure
  | hint
  deriving DecidableEq, Repr

def Paint.start : Paint → String
  | .failure => "\x1b[91;1m"
  | .hint => "\x1b[90m"

/-- A text in a colour, if colours are used. -/
def Paint.apply (colored : Bool) (p : Paint) (s : String) : String :=
  if colored then p.start ++ s ++ "\x1b[0m" else s

/-- A part of the report of a failure. -/
inductive FailureLine where
  /-- The heading of several failures. -/
  | heading (count : Nat)
  /-- A failure with its number. -/
  | entry (number : Nat) (failure : Failure)

mutual

/-- The parts of the report of a failure whose entries are numbered after `n`, and the last
    number used. -/
def failureLines (n : Nat) : Failure → List FailureLine × Nat
  | .several (f :: g :: rest) =>
    let (lines, n) := memberLines n (f :: g :: rest)
    (.heading (rest.length + 2) :: lines, n)
  | f => ([.entry (n + 1) f], n + 1)

def memberLines (n : Nat) : List Failure → List FailureLine × Nat
  | [] => ([], n)
  | f :: fs =>
    let (lines, n) := failureLines n f
    let (more, n) := memberLines n fs
    (lines ++ more, n)

end

/-- The text of a part of a report. -/
def FailureLine.text (colored : Bool) : FailureLine → String
  | .heading count => Paint.failure.apply colored (Nat.repr count ++ " errors:\n")
  | .entry number f =>
    Paint.failure.apply colored ("[err " ++ Nat.repr number ++ "] " ++ f.message ++ "\n") ++
      match f.unterminated? with
      | some u => Paint.hint.apply colored (u.caret ++ "\n")
      | none => ""

/-- The report of a failure. -/
def failureText (colored : Bool) (f : Failure) : String :=
  String.join ((failureLines 0 f).1.map (FailureLine.text colored))

end StackIr.Report

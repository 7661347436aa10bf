import StackIr.Files.Output
import StackIr.Log.Journal

/-! # Sessions

    A command reads and writes files, prints, and logs.  A session holds all that these
    change. -/

namespace StackIr.Command

/-- The state of a running command. -/
structure Session where
  files : Files.Tree
  journal : Log.Journal
  /-- The time of all its log entries. -/
  now : Log.Instant
  /-- What was logged. -/
  log : String := ""
  /-- What was printed. -/
  output : Files.Sink := {}

/-- A computation of a command. -/
abbrev Run := StateM Session

/-- What is left of a computation that does not come to an end. -/
inductive Endless where
  | endless
  deriving DecidableEq, Repr

/-- A computation of a command that need not come to an end. -/
abbrev Unbounded := ExceptT Endless Run

/-- The line about an entry that could not be written to its category file. -/
def faultLine (time : Log.Instant) (fault : Files.Fault) : String :=
  time.iso ++ " write error: " ++ fault.message ++ "\n"

/-- Logs an entry. -/
def log (l : Log.Logger) (level : Log.Level) (message : String) (fields : List Log.Field) :
    Run Unit :=
  modify fun s =>
    let step := s.journal.write s.files (l.entry s.now level message fields)
    { s with
      files := step.files
      journal := step.journal
      log := s.log ++ step.line ++ ((step.fault.map (faultLine s.now)).getD "") }

/-- Prints bytes, and tells whether there was room for them. -/
def print (bytes : List UInt8) : Run Bool :=
  modifyGet fun s =>
    let (output, taken) := s.output.write bytes
    (taken = bytes.length, { s with output := output })

/-- Prints bytes, and fails if there is no room for them. -/
def printAll (bytes : List UInt8) : Run (Option Failure) := do
  return if ← print bytes then none else some (.cause .full)

def printText (text : String) : Run (Option Failure) :=
  printAll (Text.Utf8.encode text)

end StackIr.Command

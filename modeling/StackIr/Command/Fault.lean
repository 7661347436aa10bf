import StackIr.Text.Quoted

/-! # Faults of the command line -/

namespace StackIr.Command

/-- Why a flag does not take a value. -/
inductive ValueFault where
  | notSwitch
  | notNumber
  | outOfRange
  deriving DecidableEq, Repr

def ValueFault.message (value : String) : ValueFault → String
  | .notSwitch => "strconv.ParseBool: parsing " ++ Text.quote value ++ ": invalid syntax"
  | .notNumber => "strconv.ParseInt: parsing " ++ Text.quote value ++ ": invalid syntax"
  | .outOfRange => "strconv.ParseInt: parsing " ++ Text.quote value ++ ": value out of range"

/-- What is wrong with a command line. -/
inductive Fault where
  | unknownCommand (word : String) (suggestions : List String)
  | badFlag (arg : String)
  | unknownFlag (name : String)
  /-- A letter that is no flag, and the letters from it on. -/
  | unknownLetter (letter : Char) (group : String)
  | flagNeedsValue (arg : String)
  | letterNeedsValue (letter : Char) (group : String)
  | invalidValue (value flag : String) (reason : ValueFault)
  | wrongCount (expected received : Nat)
  | tooMany (most received : Nat)
  | invalidColor (choice : String)
  | noTemplates
  | noTemplate
  | unknownFormat (name : String)
  /-- An output that has been written for another template. -/
  | outputTaken (output template : String)
  deriving DecidableEq, Repr

/-- A character in single quotes. -/
def quotedLetter (c : Char) : String :=
  let inner := if c = '"' then ['"'] else if c = '\'' then ['\\', '\''] else Text.quoteChar c
  "'" ++ String.ofList inner ++ "'"

def Fault.message : Fault → String
  | .unknownCommand word suggestions =>
    "unknown command " ++ Text.quote word ++ " for \"cfn2ir\"" ++
      (if suggestions.isEmpty then ""
       else "\n\nDid you mean this?\n" ++ String.join (suggestions.map fun s => "\t" ++ s ++ "\n"))
  | .badFlag arg => "bad flag syntax: " ++ arg
  | .unknownFlag name => "unknown flag: --" ++ name
  | .unknownLetter letter group =>
    "unknown shorthand flag: " ++ quotedLetter letter ++ " in -" ++ group
  | .flagNeedsValue arg => "flag needs an argument: " ++ arg
  | .letterNeedsValue letter group =>
    "flag needs an argument: " ++ quotedLetter letter ++ " in -" ++ group
  | .invalidValue value flag reason =>
    "invalid argument " ++ Text.quote value ++ " for " ++ Text.quote flag ++ " flag: " ++
      reason.message value
  | .wrongCount expected received =>
    "accepts " ++ Nat.repr expected ++ " arg(s), received " ++ Nat.repr received
  | .tooMany most received =>
    "accepts at most " ++ Nat.repr most ++ " arg(s), received " ++ Nat.repr received
  | .invalidColor choice =>
    "invalid --color " ++ Text.quote choice ++ ": expected auto, always or never"
  | .noTemplates => "no templates given: pass --input or template paths"
  | .noTemplate => "no template given: pass --input or a template path"
  | .unknownFormat name => "unknown format " ++ Text.quote name ++ ": expected json or yaml"
  | .outputTaken output template => "output " ++ output ++ " is already written for " ++ template

end StackIr.Command

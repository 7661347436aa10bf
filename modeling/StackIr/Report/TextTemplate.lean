import StackIr.Report.Functions
import StackIr.Text.Quoted

/-! # Text templates

    A text template is literal text with actions between double braces.  An action is a
    pipeline of function calls: the result of each call is the last argument of the next.
    The point stands for the text that the template is filled with. -/

namespace StackIr.Report

/-- An argument of a call. -/
inductive Argument where
  | point
  | number (i : Int)
  deriving DecidableEq, Repr

/-- A call of a function. -/
structure Call where
  function : String
  arguments : List Argument
  deriving DecidableEq, Repr

/-- A piece of a text template. -/
inductive Segment where
  | literal (text : String)
  | pipeline (calls : List Call)
  deriving DecidableEq, Repr

/-- Why a text template cannot be read. -/
inductive TextTemplateFault where
  | missingFile (path : String)
  | unclosedAction (name : String)
  | unknownFunction (name : String) (line : Nat) (function : String)
  deriving DecidableEq, Repr

def TextTemplateFault.message : TextTemplateFault → String
  | .missingFile path => "open " ++ path ++ ": file does not exist"
  | .unclosedAction name => "template: " ++ name ++ ": unclosed action"
  | .unknownFunction name line function =>
    "template: " ++ name ++ ":" ++ Nat.repr line ++ ": function " ++ Text.quote function ++
      " not defined"

namespace TextTemplate

/-- The words of a call. -/
def words (cs : List Char) : List String :=
  ((Text.splitChars (· == ' ') cs).filter (!·.isEmpty)).map String.ofList

def readArgument (word : String) : Argument :=
  match word.toInt? with
  | some i => .number i
  | none => .point

/-- The calls of an action. -/
def readPipeline (cs : List Char) : List Call :=
  (Text.splitChars (· == '|') cs).filterMap fun part =>
    match words part with
    | [] => none
    | function :: arguments => some ⟨function, arguments.map readArgument⟩

/-- The first function of some calls that is not known. -/
def unknown? (known : List String) (calls : List Call) : Option String :=
  (calls.find? fun call => call.function ∉ known).map Call.function

/-- The number of line breaks in a text. -/
def breaks (cs : List Char) : Nat :=
  cs.count '\n'

/-- Reads the pieces of a template from a line on. -/
def read (name : String) (known : List String) :
    (fuel : Nat) → (line : Nat) → List Char → Except TextTemplateFault (List Segment)
  | 0, _, _ => .ok []
  | fuel + 1, line, cs =>
    match Text.cutChars ['\x7b', '\x7b'] cs with
    | none => .ok (if cs.isEmpty then [] else [.literal (String.ofList cs)])
    | some (before, rest) =>
      match Text.cutChars ['\x7d', '\x7d'] rest with
      | none => .error (.unclosedAction name)
      | some (action, after) =>
        let line := line + breaks before
        let calls := readPipeline action
        match unknown? known calls with
        | some function => .error (.unknownFunction name line function)
        | none => do
          let segments ← read name known fuel (line + breaks action) after
          pure (.literal (String.ofList before) :: .pipeline calls :: segments)

/-- The pieces of the template in a file. -/
def load (files : List (String × String)) (known : List String) (path : String) :
    Except TextTemplateFault (List Segment) :=
  match files.lookup path with
  | none => .error (.missingFile path)
  | some content => read path known (content.length + 1) 1 content.toList

/-- The result of a pipeline, given the result before it. -/
def run (functions : List (String × TextFunction)) (point : String) :
    Option String → List Call → String
  | result, [] => result.getD point
  | result, call :: calls =>
    let arguments := call.arguments.map fun
      | .point => Datum.text point
      | .number i => .number i
    let all := arguments ++ (result.map Datum.text).toList
    let value := ((functions.lookup call.function).bind (· all)).getD ""
    run functions point (some value) calls

/-- The text of a template filled with a text.  Functions that come first hide later ones of
    the same name. -/
def fill (functions : List (String × TextFunction)) (segments : List Segment) (point : String) :
    String :=
  String.join (segments.map fun
    | .literal text => text
    | .pipeline calls => run functions point none calls)

end TextTemplate

end StackIr.Report

import StackIr.Command.Load
import StackIr.Report.Dump
import StackIr.Report.Summary

/-! # Inspecting templates and substitution strings -/

namespace StackIr.Command

/-- Prints what a template is made of. -/
def runInspect (l : Log.Logger) (values : Values) (args : List String) :
    Unbounded (Option Failure) := do
  let path := args.headD (values.text templateFlag)
  if path = "" then
    return some (.cause (.command .noTemplate))
  match ← assembleFile ((l.named "cli").withFields [.template path]) path with
  | .error failure => return some (.context path failure)
  | .ok ir =>
    if values.switch dumpFlag then
      let _ ← printText (Report.dump ir)
      return none
    else
      match Report.summary path ir with
      | .error failure => return some failure
      | .ok text => printText text

/-- What is known of a variable from its name. -/
def variableNote (name : String) : String :=
  if Substitution.isPseudo name then " (pseudo parameter)"
  else
    match Substitution.splitAttribute name with
    | (resource, attr, true) => " (attribute " ++ attr ++ " of " ++ resource ++ ")"
    | _ => ""

/-- The line of a token. -/
def tokenLine : Substitution.Token String → String
  | .literal text => "literal  " ++ Text.quote text ++ "\n"
  | .var name => "variable " ++ name ++ variableNote name ++ "\n"

/-- Prints the tokens of a substitution string.  Lines are printed as far as there is
    room. -/
def runTokens (values : Values) (args : List String) : Run (Option Failure) := do
  match Substitution.scanString (args.headD "") with
  | .error u => return some (.assembly (.unterminated u))
  | .ok tokens =>
    if values.switch jsonFlag then
      printText
        (String.ofList ((Json.array (tokens.map Ir.Expr.tokenJson)).indented .safe 0) ++ "\n")
    else
      let _ ← printText (String.join (tokens.map tokenLine))
      return none

end StackIr.Command

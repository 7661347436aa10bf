import StackIr.Command.Arguments
import StackIr.Command.Help
import StackIr.Command.Inspect
import StackIr.Command.Translate
import StackIr.Report.FailureText

/-! # Running the program

    From the arguments and what the program finds around it to all that it leaves behind.  Where
    a template is read without end there is nothing of the kind. -/

namespace StackIr.Command

/-- What the program finds around it. -/
structure World where
  files : Files.Tree := {}
  /-- Levels of modules for the log, as a text. -/
  levels : Option String := none
  now : Log.Instant := ⟨0⟩
  /-- Whether the log goes to a terminal. -/
  terminal : Bool := false
  /-- Whether failures are coloured unless a flag says otherwise. -/
  colored : Bool := false
  processors : Nat := 1
  /-- How many bytes can be printed. -/
  limit : Option Nat := none

/-- The choices that colour the output, and those that do not. -/
def colorChoice? (choice : String) : Option (Option Bool) :=
  if choice = "always" || choice = "on" then some (some true)
  else if choice = "never" || choice = "off" then some (some false)
  else if choice = "auto" then some none
  else none

/-- What the program leaves behind. -/
structure Outcome where
  output : Files.Sink
  /-- What was said beside the output. -/
  remarks : String := ""
  log : String := ""
  files : Files.Tree
  failure : Option Failure := none
  /-- Whether the failure is coloured. -/
  colored : Bool

namespace Outcome

/-- The outcome of a run that did nothing. -/
def start (w : World) : Outcome :=
  { output := { limit := w.limit }, files := w.files, colored := w.colored }

def failing (o : Outcome) (fault : Fault) : Outcome :=
  { o with failure := some (.cause (.command fault)) }

def printing (o : Outcome) (text : String) : Outcome :=
  { o with output := (o.output.write (Text.Utf8.encode text)).1 }

/-- The report of the failure. -/
def report (o : Outcome) : String :=
  (o.failure.map (Report.failureText o.colored)).getD ""

/-- What the program returns to its caller. -/
def exitCode (o : Outcome) : UInt8 :=
  if o.failure.isSome then 1 else 0

end Outcome

/-- The choices for the log. -/
def logOptions (w : World) (values : Values) : Log.Options :=
  { verbose := values.switch verboseFlag
    color := values.text colorFlag
    terminal := w.terminal
    categoryDirectory := values.text categoryLogsFlag
    encoding := if values.switch jsonLogFlag then "json" else ""
    overrides := w.levels }

/-- Runs a computation to its end, if it has one. -/
def Outcome.running (o : Outcome) (w : World) (journal : Log.Journal)
    (x : Unbounded (Option Failure)) : Option Outcome :=
  let (failure, s) := x.run
    { files := o.files, journal := journal, now := w.now, output := o.output }
  failure.toOption.map fun failure =>
    { o with output := s.output, log := s.log, files := s.files, failure := failure }

/-- Answers a request for help. -/
def Outcome.helping (o : Outcome) (w : World) (args : List String) : Outcome :=
  match select (all w.processors) args with
  | .ok (c, _) => o.printing (c.helpText w.processors)
  | .error _ => { o with remarks := unknownTopic w.processors args }

/-- Runs an action. -/
def perform (w : World) (o : Outcome) (action : Action) (p : Parsed) : Option Outcome :=
  let choice := p.values.text colorFlag
  match colorChoice? choice with
  | none => o.failing (.invalidColor choice)
  | some colored =>
    let o := { o with colored := colored.getD o.colored }
    match Log.Journal.ofOptions (logOptions w p.values) w.now with
    | .error failure => some { o with failure := some failure }
    | .ok journal =>
      match action with
      | .translate => o.running w journal (runTranslate {} p.values p.args)
      | .inspect => o.running w journal (runInspect {} p.values p.args)
      | .tokens => o.running w journal (runTokens p.values p.args)
      | .help => o.helping w p.args

/-- Runs the program. -/
def run (w : World) (args : List String) : Option Outcome :=
  let o := Outcome.start w
  match select (all w.processors) args with
  | .error fault => o.failing fault
  | .ok (c, args) =>
    match parse c.allFlags args with
    | .error fault => o.failing fault
    | .ok p =>
      if p.values.switch (helpFlag c.name) then o.printing (c.helpText w.processors)
      else if c.isRoot && p.values.switch versionFlag then
        o.printing (program ++ " version " ++ version ++ "\n")
      else
        match c.action with
        | none => o.printing (c.helpText w.processors)
        | some action =>
          match c.checkCount p.args.length with
          | .error fault => o.failing fault
          | .ok () => perform w o action p

end StackIr.Command

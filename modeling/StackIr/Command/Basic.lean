import StackIr.Command.Flag

/-! # Commands

    The commands of the program and their flags, as data. -/

namespace StackIr

/-- What a command does. -/
inductive Command.Action where
  | translate
  | inspect
  /-- Lists the tokens of a substitution string. -/
  | tokens
  | help
  deriving DecidableEq, Repr

/-- How many arguments a command takes. -/
inductive Command.Arity where
  | any
  | exactly (n : Nat)
  | atMost (n : Nat)
  deriving DecidableEq, Repr

/-- A command. -/
structure Command where
  name : String
  /-- The name and the arguments, as help shows them. -/
  synopsis : String
  short : String
  /-- A description that replaces the short one in help. -/
  long : String := ""
  flags : List Command.Flag := []
  arity : Command.Arity := .any
  /-- A command without an action only groups others. -/
  action : Option Command.Action := none

namespace Command

/-- The name of the program. -/
def program : String := "cfn2ir"

/-- The version of the program. -/
def version : String := "dev"

/-! ## Flags -/

def verboseFlag : Flag :=
  { name := "verbose", letter := some 'v', kind := .switch, usage := "Enable verbose logging" }

def jsonLogFlag : Flag :=
  { name := "json-log", kind := .switch, usage := "Output logs in JSON format" }

def colorFlag : Flag :=
  { name := "color", kind := .text, usage := "Colorize output: auto, always or never"
    default := "auto" }

def categoryLogsFlag : Flag :=
  { name := "category-logs", kind := .text
    usage := "Also write each log category to <dir>/<category>.log" }

/-- The flags of every command. -/
def globalFlags : List Flag :=
  [verboseFlag, jsonLogFlag, colorFlag, categoryLogsFlag]

def helpFlag (command : String) : Flag :=
  { name := "help", letter := some 'h', kind := .switch, usage := "help for " ++ command }

def versionFlag : Flag :=
  { name := "version", kind := .switch, usage := "version for " ++ program }

def templatesFlag : Flag :=
  { name := "input", letter := some 'i', kind := .texts
    usage := "Template file to translate (repeatable)" }

def outputDirectoryFlag : Flag :=
  { name := "output-dir", letter := some 'o', kind := .text
    usage := "Directory to write <name>.ir.<format> files to" }

def formatFlag : Flag :=
  { name := "format", kind := .text, usage := "Output format: json or yaml", default := "json" }

def workersFlag (processors : Nat) : Flag :=
  { name := "workers", kind := .number
    usage := "Number of templates to translate concurrently"
    default := Nat.repr processors }

def templateFlag : Flag :=
  { name := "input", letter := some 'i', kind := .text, usage := "Template file to inspect" }

def dumpFlag : Flag :=
  { name := "dump", kind := .switch, usage := "Dump the full IR structure instead of the summary" }

def jsonFlag : Flag :=
  { name := "json", kind := .switch, usage := "Print the tokens as JSON" }

/-! ## The commands -/

def translate (processors : Nat) : Command :=
  { name := "translate"
    synopsis := "translate [template ...]"
    short := "Translate templates into IR documents"
    long := "Translate each template into an IR document. Without --output-dir the documents " ++
      "are written to stdout in input order."
    flags := [templatesFlag, outputDirectoryFlag, formatFlag, workersFlag processors]
    action := some .translate }

def inspect : Command :=
  { name := "inspect"
    synopsis := "inspect [template]"
    short := "Print a summary of a template's IR"
    flags := [templateFlag, dumpFlag]
    arity := .atMost 1
    action := some .inspect }

def tokens : Command :=
  { name := "sub"
    synopsis := "sub <string>"
    short := "Print the tokens of an Fn::Sub string"
    flags := [jsonFlag]
    arity := .exactly 1
    action := some .tokens }

def help : Command :=
  { name := "help"
    synopsis := "help [command]"
    short := "Help about any command"
    long := "Help provides help for any command in the application.\nSimply type " ++ program ++
      " help [path to command] for full details."
    action := some .help }

/-- A group whose members, one for each shell, print what a shell needs to complete the
    words of the command line. -/
def completion : Command :=
  { name := "completion"
    synopsis := "completion"
    short := "Generate the autocompletion script for the specified shell"
    long := "Generate the autocompletion script for " ++ program ++ " for the specified shell.\n" ++
      "See each sub-command's help for details on how to use the generated script." }

/-- The program itself, which groups all commands. -/
def root : Command :=
  { name := program
    synopsis := program
    short := "Translate CloudFormation templates into a language-neutral IR" }

/-- The commands in the order they are looked for. -/
def all (processors : Nat) : List Command :=
  [translate processors, inspect, tokens, help, completion]

/-- Whether a command is the program itself. -/
def isRoot (c : Command) : Bool :=
  c.name = program

/-- The flags of a command that are not those of every command. -/
def ownFlags (c : Command) : List Flag :=
  c.flags ++ helpFlag c.name :: (if c.isRoot then [versionFlag] else [])

/-- All flags that a command understands. -/
def allFlags (c : Command) : List Flag :=
  c.ownFlags ++ globalFlags

/-- Whether a command takes a number of arguments. -/
def checkCount (c : Command) (n : Nat) : Except Fault Unit :=
  match c.arity with
  | .any => .ok ()
  | .exactly m => if n = m then .ok () else .error (.wrongCount m n)
  | .atMost m => if n ≤ m then .ok () else .error (.tooMany m n)

end Command

end StackIr

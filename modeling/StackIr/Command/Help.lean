import StackIr.Command.Basic

/-! # Help

    What a command is for, how it is called, and its flags. -/

namespace StackIr.Command

/-! ## Flags -/

/-- The word for the value of a flag. -/
def FlagKind.placeholder : FlagKind → String
  | .switch => ""
  | .text => " string"
  | .texts => " stringArray"
  | .number => " int"

/-- The first column of the line of a flag. -/
def Flag.column (f : Flag) : String :=
  (match f.letter with
    | some c => "  -" ++ String.singleton c ++ ", --"
    | none => "      --") ++ f.name ++ f.kind.placeholder

/-- The default of a flag, unless it is that of its kind. -/
def Flag.defaultNote (f : Flag) : String :=
  match f.kind with
  | .text => if f.default = "" then "" else " (default " ++ Text.quote f.default ++ ")"
  | .number => if f.default = "0" then "" else " (default " ++ f.default ++ ")"
  | .switch | .texts => ""

/-- The lines of flags, in the order of their names. -/
def flagLines (flags : List Flag) : String :=
  let flags := flags.mergeSort fun f g => decide (f.name ≤ g.name)
  let width := flags.foldl (fun w f => max w f.column.length) 0
  String.intercalate "\n" (flags.map fun f =>
    Text.padRight width f.column ++ "   " ++ f.usage ++ f.defaultNote)

/-! ## Commands -/

/-- How a command is called from the shell. -/
def path (c : Command) : String :=
  if c.isRoot then program else program ++ " " ++ c.name

/-- The commands that a group lists with what they do. -/
def listing (processors : Nat) (c : Command) : List (String × String) :=
  if c.isRoot then
    ((all processors).mergeSort fun a b => decide (a.name ≤ b.name)).map fun c => (c.name, c.short)
  else if c.action.isNone then
    ["bash", "fish", "powershell", "zsh"].map fun shell =>
      (shell, "Generate the autocompletion script for " ++ shell)
  else []

/-- How a command is called, and the given flags. -/
def usage (processors : Nat) (c : Command) (flags : List Flag) : String :=
  let members := listing processors c
  let isGroup := ¬ members.isEmpty
  "Usage:" ++
    (if c.action.isSome then "\n  " ++ program ++ " " ++ c.synopsis ++ " [flags]" else "") ++
    (if isGroup then "\n  " ++ c.path ++ " [command]\n\nAvailable Commands:" ++
      String.join (members.map fun (name, short) => "\n  " ++ Text.padRight 11 name ++ " " ++ short)
     else "") ++
    "\n\nFlags:\n" ++ flagLines flags ++
    (if c.isRoot then "" else "\n\nGlobal Flags:\n" ++ flagLines globalFlags) ++
    (if isGroup then "\n\nUse \"" ++ c.path ++
      " [command] --help\" for more information about a command."
     else "") ++ "\n"

/-- The help of a command. -/
def helpText (processors : Nat) (c : Command) : String :=
  let flags := if c.isRoot then c.allFlags else c.ownFlags
  (if c.long = "" then c.short else c.long) ++ "\n\n" ++ usage processors c flags

/-- Whether a text can stand between backquotes. -/
def fitsBackquotes (s : String) : Bool :=
  s.toList.all fun c =>
    c ≠ '\x60' && c ≠ '\x7f' && c ≠ '\ufeff' && (c = '\t' || c.toNat ≥ 0x20)

/-- A text between backquotes, or quoted if it does not fit. -/
def backquoted (s : String) : String :=
  if fitsBackquotes s then "\x60" ++ s ++ "\x60" else Text.quote s

/-- The answer to a request for help on something unknown. -/
def unknownTopic (processors : Nat) (args : List String) : String :=
  "Unknown help topic [" ++ String.intercalate " " (args.map backquoted) ++ "]\n" ++
    usage processors root globalFlags

end StackIr.Command

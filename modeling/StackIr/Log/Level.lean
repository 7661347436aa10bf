import StackIr.OrderedMap
import StackIr.Text.Cut
import StackIr.Text.LowerCase

/-! # Log levels

    Levels are ordered by severity, and some have names.  A text may give levels to modules by
    name. -/

namespace StackIr.Log

/-- How severe an entry is. -/
structure Level where
  number : Int8
  deriving DecidableEq, Repr

namespace Level

def debug : Level := ⟨-1⟩

def info : Level := ⟨0⟩

def warn : Level := ⟨1⟩

def error : Level := ⟨2⟩

def dpanic : Level := ⟨3⟩

def panic : Level := ⟨4⟩

def fatal : Level := ⟨5⟩

instance : LE Level := ⟨fun a b => a.number ≤ b.number⟩

instance (a b : Level) : Decidable (a ≤ b) :=
  inferInstanceAs (Decidable (a.number ≤ b.number))

/-- The levels that have names, from the least severe on. -/
def named : List (Level × String) :=
  [ (debug, "debug"), (info, "info"), (warn, "warn"), (error, "error"), (dpanic, "dpanic"),
    (panic, "panic"), (fatal, "fatal") ]

/-- The name of a level, or its number. -/
def name (l : Level) : String :=
  (named.lookup l).getD ("Level(" ++ toString l.number.toInt ++ ")")

/-- The name in capital letters. -/
def label (l : Level) : String :=
  String.ofList (l.name.toList.map Char.toUpper)

/-- The level with a name in any case.  The empty name is that of the usual level. -/
def ofName? (name : String) : Option Level :=
  if name = "" then some info
  else (named.find? fun entry => entry.2 = Text.lower name).map Prod.fst

end Level

/-- Levels by module name. -/
abbrev Levels := OrderedMap Level

/-- The module and level of a pair such as `ir=debug`. -/
def Levels.pair? (text : String) : Option (String × Level) :=
  match Text.cut? "=" (Text.trim text) with
  | none => none
  | some (name, level) => (Level.ofName? level).map (name, ·)

/-- The levels of a list of pairs with commas between them.  What is not a pair is passed
    over, and of several pairs with one name the last counts. -/
def Levels.ofText (text : String) : Levels :=
  .ofList ((Text.splitOn ',' text).filterMap pair?)

/-- The first levels with the second ones put over them. -/
def Levels.override (levels later : Levels) : Levels :=
  .ofList (levels.entries ++ later.entries)

end StackIr.Log

import StackIr.Log.Level

/-! # Which entries are logged

    An entry is logged if it is severe enough for the module it comes from.  A level that is
    set for a module holds for the modules below it too, unless they have their own; the
    empty name sets the level of all named modules that have none.  Entries of modules
    without a level, and entries without a module, are left to the general rule.

    The level of a module is remembered once it is found. -/

namespace StackIr.Log

/-- The names above a module, from its name read backwards: whatever stands before each of
    its points, the longest first, and at last the empty name. -/
def namesAbove : List Char → List (List Char)
  | [] => [[]]
  | c :: rest => if c = '.' then rest :: namesAbove rest else namesAbove rest

/-- The name of a module and the names above it, the longest first. -/
def moduleChain (name : String) : List String :=
  name :: (namesAbove name.toList.reverse).map fun cs => String.ofList cs.reverse

/-- The level of the longest name in the chain of a module that has one. -/
def Levels.of? (levels : Levels) (name : String) : Option Level :=
  (moduleChain name).findSome? levels.get?

/-- What decides which entries are logged. -/
structure Threshold where
  /-- The general rule. -/
  admits : Level → Bool
  /-- The levels set for modules. -/
  levels : Levels := .empty
  /-- The levels found so far, by module. -/
  found : Levels := .empty

namespace Threshold

/-- The rule that admits entries from a level on. -/
def atLeast (least : Level) (levels : Levels) : Threshold where
  admits := fun l => decide (least ≤ l)
  levels := levels

/-- The level of a module, which is looked up among those found before. -/
def levelOf (t : Threshold) (name : String) : Option Level × Threshold :=
  match t.found.get? name with
  | some level => (some level, t)
  | none =>
    match t.levels.of? name with
    | some level => (some level, { t with found := t.found.insert name level })
    | none => (none, t)

/-- Whether an entry of a module is logged. -/
def check (t : Threshold) (name : String) (level : Level) : Bool × Threshold :=
  if name = "" then (t.admits level, t)
  else
    match t.levelOf name with
    | (some least, t) => (decide (least ≤ level), t)
    | (none, t) => (t.admits level, t)

/-- Whether some module may log entries of a level. -/
def enabled (t : Threshold) (level : Level) : Bool :=
  t.admits level || t.levels.entries.any fun (_, least) => decide (least ≤ level)

end Threshold

end StackIr.Log

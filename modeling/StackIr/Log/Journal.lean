import StackIr.Failure
import StackIr.Log.Category
import StackIr.Log.Threshold

/-! # Journals

    A journal takes entries, writes those that pass its threshold, and keeps category files
    if it was asked to. -/

namespace StackIr.Log

/-- The choices that make a journal. -/
structure Options where
  verbose : Bool := false
  color : String := ""
  /-- Whether the lines go to a terminal. -/
  terminal : Bool := false
  categoryDirectory : String := ""
  encoding : String := ""
  levels : Levels := .empty
  /-- Levels that override the others, as a text. -/
  overrides : Option String := none

namespace Options

/-- Whether lines are coloured. -/
def colored (o : Options) : Bool :=
  if o.color = "always" || o.color = "on" then true
  else if o.color = "never" || o.color = "off" then false
  else o.terminal

/-- The layout of lines. -/
def layout (o : Options) : Except Failure Layout :=
  if o.encoding = "json" then .ok (if o.verbose then .shortJson else .json)
  else if o.encoding = "console" || o.encoding = "" then
    .ok (if o.colored then .colored else .console)
  else .error (.other ("unknown log encoding " ++ Text.quote o.encoding))

/-- The levels of modules. -/
def moduleLevels (o : Options) : Levels :=
  match o.overrides with
  | some text => o.levels.override (.ofText text)
  | none => o.levels

end Options

/-- A journal. -/
structure Journal where
  start : Instant
  layout : Layout
  threshold : Threshold
  categories : Option CategoryFiles := none

namespace Journal

/-- The journal of a program that was started at `start`. -/
def ofOptions (o : Options) (start : Instant) : Except Failure Journal :=
  o.layout.map fun layout =>
    { start := start
      layout := layout
      threshold := .atLeast (if o.verbose then .debug else .info) o.moduleLevels
      categories :=
        if o.categoryDirectory = "" then none else some { directory := o.categoryDirectory } }

/-- Whether entries of a level may be of use. -/
def enabled (j : Journal) (level : Level) : Bool :=
  j.categories.any (·.enabled level) || j.threshold.enabled level

/-- What a journal did with an entry. -/
structure Step where
  journal : Journal
  files : Files.Tree
  /-- The line that was written, if any. -/
  line : String := ""
  /-- What went wrong with the category file. -/
  fault : Option Files.Fault := none

/-- Takes an entry. -/
def write (j : Journal) (files : Files.Tree) (e : Entry) : Step :=
  if j.enabled e.level then
    let (passes, threshold) := j.threshold.check e.logger e.level
    let line := if passes then j.layout.line j.start e else ""
    let j := { j with threshold := threshold }
    match j.categories with
    | none => { journal := j, files := files, line := line }
    | some c =>
      match c.write .dated files e with
      | .ok (c, files) =>
        { journal := { j with categories := some c }, files := files, line := line }
      | .error fault => { journal := j, files := files, line := line, fault := some fault }
  else
    { journal := j, files := files }

end Journal

end StackIr.Log

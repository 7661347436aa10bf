import StackIr.Yaml.Comment

/-! # Writing line by line

    A page is the text written so far and what is known about the place where writing goes
    on.  Comments are handed to the page before it is known where they go, and wait there
    for their place. -/

namespace StackIr.Yaml

/-- A text that is being written. -/
structure Page where
  /-- The characters written, last first. -/
  written : List Char := []
  column : Nat := 0
  /-- Whether a blank was written last, so that none is needed. -/
  blank : Bool := true
  /-- Whether nothing but indentation and indicators that count as such stands on the
      line. -/
  fresh : Bool := true
  /-- The comments that wait. -/
  waiting : Comments := {}
  /-- The comment below an entry that waits for the end of the entry. -/
  tail : List Char := []
  /-- The comment behind a key that waits for the key's value. -/
  behindKey : List Char := []
  /-- The column of the comment below a node that was written last.  It is parted by an
      empty line from what follows in its column. -/
  footColumn : Option Nat := none

namespace Page

def toString (p : Page) : String :=
  String.ofList p.written.reverse

/-- Writes characters of a line. -/
def put (cs : List Char) (p : Page) : Page :=
  { p with written := cs.reverse ++ p.written, column := p.column + cs.length }

/-- Ends the line. -/
def breakLine (p : Page) : Page :=
  { p with written := '\n' :: p.written, column := 0, fresh := true }

/-- Writes a character that ends a line. -/
def putBreak (c : Char) (p : Page) : Page :=
  if c == '\n' then p.breakLine
  else { p with written := c :: p.written, column := 0, fresh := true }

/-- Writes an indicator, after a blank if one is needed. -/
def indicator (cs : List Char) (needsBlank isBlank isIndentation : Bool) (p : Page) : Page :=
  let p := if needsBlank && !p.blank then p.put [' '] else p
  { p.put cs with blank := isBlank, fresh := p.fresh && isIndentation }

/-- Goes to a column, on a new line unless the line can be used. -/
def indentTo (column : Nat) (p : Page) : Page :=
  let p :=
    if !p.fresh || p.column > column || (p.column == column && !p.blank) then p.breakLine else p
  let p := if p.footColumn = some column then p.breakLine else p
  { p.put (List.replicate (column - p.column) ' ') with blank := true, footColumn := none }

/-! ## Comments -/

/-- A comment takes the place of one that waits. -/
def replace (waiting new : List Char) : List Char :=
  if new.isEmpty then waiting else new

/-- Hands comments to the page. -/
def note (comments : Comments) (tail : List Char) (p : Page) : Page :=
  { p with
    waiting :=
      { head := replace p.waiting.head comments.head
        line := replace p.waiting.line comments.line
        foot := replace p.waiting.foot comments.foot }
    tail := replace p.tail tail }

/-- Writes a comment whose lines after the first start in a column. -/
def writeComment (column : Nat) (text : List Char) (p : Page) : Page :=
  let write (state : Page × Bool × Bool) (c : Char) : Page × Bool × Bool :=
    let (p, broken, started) := state
    if isBreak c then (p.putBreak c, true, false)
    else
      let p := if broken then p.indentTo column else p
      let p := if started || c == '#' then p else p.put ['#', ' ']
      ({ p.put [c] with fresh := false }, false, true)
  let (p, broken, _) := text.foldl write (p, false, false)
  { (if broken then p else p.breakLine) with blank := true }

/-- Writes the comments that stand above what comes next in a column. -/
def writeHead (column : Nat) (p : Page) : Page :=
  let p :=
    if p.tail.isEmpty then p
    else
      { (p.indentTo column).writeComment column p.tail with
        tail := [], footColumn := some column }
  if p.waiting.head.isEmpty then p
  else
    { (p.indentTo column).writeComment column p.waiting.head with
      waiting := { p.waiting with head := [] } }

/-- Writes the comment that stands behind what was written. -/
def writeLine (column : Nat) (p : Page) : Page :=
  if p.waiting.line.isEmpty then p
  else
    let p := if p.blank then p else p.put [' ']
    { p.writeComment column p.waiting.line with waiting := { p.waiting with line := [] } }

/-- Writes the comment that stands below what was written in a column. -/
def writeFoot (column : Nat) (p : Page) : Page :=
  if p.waiting.foot.isEmpty then p
  else
    { (p.indentTo column).writeComment column p.waiting.foot with
      waiting := { p.waiting with foot := [] }
      footColumn := some column }

end Page

end StackIr.Yaml

import StackIr.Yaml.Comment

/-! # Reading comments

    Comments in lines of their own belong to the node after them, unless their place says
    that they belong to the node before: an empty line parts them from what follows, what
    follows is indented less, or the flow collection around them ends. -/

namespace StackIr.Yaml

/-- What decides to which node a comment belongs. -/
structure Surroundings where
  inFlow : Bool
  /-- The column of the innermost block. -/
  indent : Nat
  /-- The line below the last token, if there is one on the line where the gap starts. -/
  footLine : Option Nat
  /-- Whether the last token asks for a value. -/
  awaitsValue : Bool

/-- What is known while comments are read. -/
structure Remarks where
  cursor : Cursor
  /-- The number of characters looked at beyond the cursor. -/
  ahead : Nat := 0
  line : Nat
  column : Nat
  /-- The lines that belong together, and where they start. -/
  text : List Char := []
  start : Mark := ⟨0, 0, 0⟩
  searched : Nat
  since : Nat
  /-- Whether the line looked at last is empty, and whether there was none before it. -/
  afterEmpty : Bool := false
  noneEmpty : Bool
  /-- The comments that are complete, last first. -/
  found : List Comment := []

namespace Remarks

/-- The most characters that are looked at beyond the cursor. -/
def reach : Nat := 512

def here (r : Remarks) : Nat :=
  r.cursor.mark.index + r.ahead

/-- Ends the lines read so far as a comment on what stands before them. -/
def endFoot (since : Nat) (r : Remarks) : Remarks :=
  { r with
    found := ⟨.foot, r.text, since, r.start, r.searched, r.here⟩ :: r.found
    searched := r.here
    since := r.here
    text := [] }

/-- Ends the lines read so far as a comment on what stands after them. -/
def endHead (r : Remarks) : Remarks :=
  if r.text.isEmpty then r
  else
    { r with
      found := ⟨.head, r.text, r.start.index, r.start, r.searched, r.here - 1⟩ :: r.found
      text := [] }

/-- An empty line, the end of the text or the end of a flow collection. -/
def atPause (around : Surroundings) (closes isEnd : Bool) (r : Remarks) : Remarks :=
  let dedented := r.start.column ≤ around.indent
  if r.text.isEmpty || (r.afterEmpty && !closes) then r
  else if closes || (r.noneEmpty &&
      ((around.footLine = some r.start.line && !around.awaitsValue) || dedented)) then
    r.endFoot (if dedented then r.start.index else r.since)
  else if isEnd then r
  else { r with text := r.text ++ ['\n'] }

/-- A line that is indented less than the block around it parts comments in another
    column. -/
def atDedent (around : Surroundings) (r : Remarks) : Remarks :=
  if !r.text.isEmpty && r.column ≤ around.indent && r.column ≠ r.start.column then
    r.endFoot r.since
  else r

/-- Goes to an index on this line or a later one. -/
def goTo (index : Nat) : (fuel : Nat) → Cursor → Cursor
  | 0, c => c
  | fuel + 1, c =>
    if c.mark.index < index then
      goTo index fuel (if c.peek?.any isBreak then c.skipBreak else c.skip 1)
    else c

/-- Takes the line of a comment whose number sign is in view. -/
def takeLine (r : Remarks) : Remarks :=
  let c := goTo r.here r.ahead r.cursor
  let (comment, next) := c.takeComment
  { r with
    cursor := next
    ahead := 1
    line := next.line
    column := 0
    start := if r.text.isEmpty then ⟨r.here, r.line, r.column⟩ else r.start
    text := Comments.under r.text ((comment.map (·.2)).getD [])
    afterEmpty := false }

/-- What is looked at after a character.  A break of more than one byte is followed by the
    rest of its bytes, which are no gap. -/
def beyond : List Char → List Char
  | [] => []
  | c :: rest => if isBreak c && c.toNat ≥ 0x80 then '\x80' :: rest else rest

/-- Reads comments as long as there is nothing else.  `view` is what lies beyond the
    characters looked at. -/
def read (around : Surroundings) : (fuel : Nat) → (view : List Char) → Remarks → Remarks
  | 0, _, r => r
  | fuel + 1, view, r =>
    if r.ahead ≥ reach then r
    else
      let r := { r with column := r.column + 1 }
      match view with
      | [] => r.atPause around false true
      | x :: _ =>
        if isBlank x then read around fuel (beyond view) { r with ahead := r.ahead + 1 }
        else if around.inFlow && (x == ']' || x == '\x7d') then r.atPause around true false
        else if isBreak x then
          read around fuel (beyond view)
            { r.atPause around false false with
              ahead := r.ahead + 1
              line := r.line + 1
              column := 0
              afterEmpty := true
              noneEmpty := false }
        else
          let r := r.atDedent around
          if x == '#' then
            let r := r.takeLine
            read around fuel (beyond r.cursor.rest) r
          else r

end Remarks

/-- Reads the comments that start at a cursor, in order, and passes over them.  The gap
    before them starts at `gap`, and the last token before it at `since`. -/
def readComments (around : Surroundings) (gap : Mark) (since : Nat) (c : Cursor) :
    List Comment × Cursor :=
  let start : Remarks :=
    { cursor := c
      line := c.line
      column := c.column
      searched := gap.index
      since := since
      noneEmpty := c.breaks ≤ 1 }
  let r := (Remarks.read around (2 * c.left + 2) c.rest start).endHead
  (r.found.reverse, r.cursor)

end StackIr.Yaml

import StackIr.Yaml.Token.Gap

/-! # Block scalars

    A block scalar is the indented lines after its header.  A literal one keeps its line
    breaks, a folded one joins lines that do not start with a blank.  The header may say
    what happens to the breaks at the end and how far the lines are indented. -/

namespace StackIr.Yaml.Block

/-- What happens to the line breaks at the end. -/
inductive Chomping where
  /-- One is kept. -/
  | clip
  /-- None is kept. -/
  | strip
  /-- All are kept. -/
  | keep
  deriving DecidableEq, Repr

/-- The header of a block scalar. -/
structure Header where
  chomping : Chomping
  /-- The columns by which the lines are indented beyond their parent, if given. -/
  increment : Option Nat
  /-- The place and the text of the comment behind it, if there is one. -/
  comment : Option (Mark × List Char) := none

/-- The chomping that a character asks for. -/
def chomping? : Option Char → Option Chomping
  | some '+' => some .keep
  | some '-' => some .strip
  | _ => none

/-- Reads an indentation digit. -/
def readIncrement (start : Nat) (c : Cursor) : Except Fault (Option Nat × Cursor) :=
  match c.peek? with
  | some d =>
    if d == '0' then
      .error (.lexical start c.line "found an indentation indicator equal to 0")
    else if d.isDigit then .ok (some (d.toNat - 48), c.skip 1)
    else .ok (none, c)
  | none => .ok (none, c)

/-- Reads the header up to the start of the next line.  The two indicators may come in
    either order. -/
def readHeader (c : Cursor) : Except Fault (Header × Cursor) := do
  let start := c.line
  let c := c.skip 1
  let (header, c) ←
    match chomping? c.peek? with
    | some chomping => do
      let (increment, c) ← readIncrement start (c.skip 1)
      pure (Header.mk chomping increment none, c)
    | none => do
      let (increment, c) ← readIncrement start c
      match increment, chomping? c.peek? with
      | some _, some chomping => pure (⟨chomping, increment, none⟩, c.skip 1)
      | _, _ => pure (⟨.clip, increment, none⟩, c)
  let (comment, c) := (c.skipWhile isBlank).takeComment
  if atLineEnd c.rest then pure ({ header with comment := comment }, c.skipBreak)
  else throw (.lexical start c.line "did not find expected comment or line break")

/-- Passes over empty lines and the indentation of the next line.  `indent` is the
    indentation when it is known.  Gives the breaks passed and the furthest column seen. -/
def readBreaks (start : Nat) (indent : Option Nat) :
    (fuel : Nat) → (breaks : List Char) → (furthest : Nat) → Cursor →
      Except Fault (List Char × Nat × Cursor)
  | 0, breaks, furthest, c => .ok (breaks, furthest, c)
  | fuel + 1, breaks, furthest, c =>
    let spaces := (c.rest.takeWhile (· == ' ')).length
    let c := c.skip (match indent with | some n => min spaces (n - c.column) | none => spaces)
    let furthest := max furthest c.column
    if (indent.all (c.column < ·)) && c.isAt '\t' then
      .error (.lexical start c.line
        "found a tab character where an indentation space is expected")
    else if c.rest.isEmpty || !atLineEnd c.rest then .ok (breaks, furthest, c)
    else
      let (text, c) := c.takeBreak
      readBreaks start indent fuel (breaks ++ text) furthest c

/-- Reads the lines of the scalar.  `ending` is the break of the last line, `breaks` those of
    the empty lines after it, and `sofar` the parts read, last first. -/
def readLines (literal : Bool) (start : Nat) (indent : Nat) :
    (fuel : Nat) → (sofar : List (List Char)) → (afterBlank : Bool) →
      (ending breaks : List Char) → Cursor →
        Except Fault (List (List Char) × List Char × List Char × Cursor)
  | 0, sofar, _, ending, breaks, c => .ok (sofar, ending, breaks, c)
  | fuel + 1, sofar, afterBlank, ending, breaks, c =>
    if c.column ≠ indent || c.rest.isEmpty then .ok (sofar, ending, breaks, c)
    else do
      let blank := c.peek?.any isBlank
      let joined := !literal && !afterBlank && !blank && ending = ['\n']
      let ending := if joined then (if breaks.isEmpty then [' '] else []) else ending
      let text := c.rest.takeWhile (!isBreak ·)
      let (next, c) := (c.skip text.length).takeBreak
      let (breaks', _, c) ← readBreaks start (some indent) (c.left + 1) [] 0 c
      readLines literal start indent fuel (text :: breaks :: ending :: sofar) blank next breaks' c

/-- Reads a block scalar inside a block that is indented by `parent` columns, -1 at the top
    level.  Gives its header and its text. -/
def read (literal : Bool) (parent : Int) (c : Cursor) :
    Except Fault (Header × List Char × Cursor) := do
  let start := c.line
  let (header, c) ← readHeader c
  let given := header.increment.map fun n => (max parent 0).toNat + n
  let (breaks, furthest, c) ← readBreaks start given (c.left + 1) [] 0 c
  let indent := given.getD (max furthest (max (parent + 1).toNat 1))
  let (sofar, ending, breaks, c) ←
    readLines literal start indent (c.left + 1) [] false [] breaks c
  let tail :=
    match header.chomping with
    | .strip => []
    | .clip => ending
    | .keep => ending ++ breaks
  pure (header, (tail :: sofar).reverse.flatten, c)

end StackIr.Yaml.Block

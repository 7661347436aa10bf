import StackIr.Yaml.Token.Gap

/-! # Plain scalars

    A plain scalar is a run of words.  It ends at a colon before a gap, at a comment, at a
    document marker, at a line that is not indented enough, and inside flow collections at
    the characters that structure them. -/

namespace StackIr.Yaml.Plain

/-- The characters that end a plain scalar inside a flow collection. -/
def endsInFlow (c : Char) : Bool :=
  c == ',' || c == '?' || c == '[' || c == ']' || c == '\x7b' || c == '\x7d'

/-- The word at the start of a text. -/
def word (flow : Bool) : List Char → List Char
  | [] => []
  | c :: rest =>
    if isBlank c || isBreak c then []
    else if c == ':' && atGap rest then []
    else if flow && endsInFlow c then []
    else c :: word flow rest

/-- What is known after a plain scalar. -/
structure Outcome where
  text : List Char
  /-- Whether the scalar ended at the end of a line. -/
  broken : Bool
  cursor : Cursor

/-- Reads words and the gaps between them.  `sofar` holds the parts read, last first. -/
def readWords (flow : Bool) (start : Nat) (least : Nat) :
    (fuel : Nat) → (sofar : List (List Char)) → Gap → Cursor → Except Fault Outcome
  | 0, sofar, g, c => .ok ⟨sofar.reverse.flatten, g.broken, c⟩
  | fuel + 1, sofar, g, c =>
    if c.atDocumentMarker || c.isAt '#' then
      .ok ⟨sofar.reverse.flatten, g.broken, c⟩
    else
      let w := word flow c.rest
      if w.isEmpty then .ok ⟨sofar.reverse.flatten, g.broken, c⟩
      else
        let sofar := w :: g.fold :: sofar
        let c := c.skip w.length
        if !atGap c.rest then .ok ⟨sofar.reverse.flatten, false, c⟩
        else do
          let (g, c) ← Gap.read start (some least) c.left {} c
          if !flow && c.column < least then .ok ⟨sofar.reverse.flatten, g.broken, c⟩
          else readWords flow start least fuel sofar g c

/-- Reads a plain scalar whose lines are indented by at least `least` columns. -/
def read (flow : Bool) (least : Nat) (c : Cursor) : Except Fault Outcome :=
  readWords flow c.line least (c.left + 1) [] {} c

end StackIr.Yaml.Plain

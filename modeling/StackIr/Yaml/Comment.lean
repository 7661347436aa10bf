import StackIr.Yaml.Cursor

/-! # Comments

    A comment is not part of what a document says, but it is kept when the document is
    written again.  It belongs to a node: it stands above the node, behind it on its line,
    or below it. -/

namespace StackIr.Yaml

/-- Where a comment stands, seen from its node. -/
inductive CommentPlace where
  | head
  | line
  | foot
  deriving DecidableEq, Repr

/-- A comment that was read and has no node yet. -/
structure Comment where
  place : CommentPlace
  /-- Its lines, each from the number sign on. -/
  text : List Char
  /-- The index from which on a token takes it. -/
  since : Nat
  /-- The place of its number sign.  Above and below a node, columns count from one. -/
  start : Mark
  /-- The index from which on only gaps and comments were read before it. -/
  searched : Nat := 0
  /-- The index where it ends. -/
  finish : Nat := 0
  deriving DecidableEq, Repr

/-- The comments of a node. -/
structure Comments where
  head : List Char := []
  line : List Char := []
  foot : List Char := []
  deriving DecidableEq, Repr

namespace Comments

/-- A comment under those that are already there. -/
def under (above text : List Char) : List Char :=
  if above.isEmpty then text else above ++ '\n' :: text

/-- Adds a comment at its place. -/
def add (cs : Comments) (c : Comment) : Comments :=
  match c.place with
  | .head => { cs with head := under cs.head c.text }
  | .line => { cs with line := under cs.line c.text }
  | .foot => { cs with foot := under cs.foot c.text }

end Comments

end StackIr.Yaml

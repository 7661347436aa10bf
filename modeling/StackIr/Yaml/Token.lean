import StackIr.Yaml.Comment

/-! # Tokens

    A document is read as a list of tokens.  Where indentation opens or closes a block
    there is a token for it, and a `key` token stands before the key of every entry. -/

namespace StackIr.Yaml

/-- How a scalar is written. -/
inductive ScalarStyle where
  | plain
  | singleQuoted
  | doubleQuoted
  | literal
  | folded
  deriving DecidableEq, Repr

inductive TokenKind where
  | streamEnd
  | versionDirective (major minor : Nat)
  | tagDirective (handle start : String)
  | documentStart
  | documentEnd
  | blockSequenceStart
  | blockMappingStart
  | blockEnd
  | flowSequenceStart
  | flowSequenceEnd
  | flowMappingStart
  | flowMappingEnd
  | blockEntry
  | flowEntry
  | key
  | value
  | alias (name : String)
  | anchor (name : String)
  | tag (handle suffix : String)
  | scalar (text : String) (style : ScalarStyle)
  deriving DecidableEq, Repr

/-- A token, the place where it starts, and the comments that are handed out with it. -/
structure Token where
  mark : Mark
  kind : TokenKind
  comments : List Comment := []
  deriving DecidableEq, Repr

/-- The line of a token, counted from zero. -/
def Token.line (t : Token) : Nat :=
  t.mark.line

end StackIr.Yaml

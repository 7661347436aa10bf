import StackIr.Text.Cut

/-! # Tokens of a substitution string

    A substitution string is literal text with `$`-and-brace placeholders.  Its tokens are
    literal runs and variables; the text type is a parameter because strings of bytes and
    strings of characters are split by the same rule. -/

namespace StackIr.Substitution

/-- One element of a substitution string. -/
inductive Token (τ : Type) where
  /-- Text that is reproduced verbatim. -/
  | literal (text : τ)
  /-- A placeholder, to be filled in when the stack is built. -/
  | var (name : τ)
  deriving DecidableEq, Repr

namespace Token

variable {τ σ : Type}

/-- The same token over another text type. -/
def map (f : τ → σ) : Token τ → Token σ
  | .literal text => .literal (f text)
  | .var name => .var (f name)

/-- The text of a literal. -/
def literal? : Token τ → Option τ
  | .literal text => some text
  | .var _ => none

/-- The name of a variable. -/
def var? : Token τ → Option τ
  | .literal _ => none
  | .var name => some name

/-- A token as a reader sees it: literal text bare, a variable as its placeholder. -/
def display : Token String → String
  | .literal text => text
  | .var name => "$\x7b" ++ name ++ "\x7d"

end Token

/-- The variables of a token list in the order they appear. -/
def variableNames {τ : Type} (tokens : List (Token τ)) : List τ :=
  tokens.filterMap Token.var?

/-- The text of all literal tokens, joined. -/
def literalText (tokens : List (Token String)) : String :=
  String.join (tokens.filterMap Token.literal?)

/-- Names that every stack has start with this. -/
def pseudoStart : String := "AWS::"

/-- Whether a variable names a pseudo parameter such as `AWS::Region`. -/
def isPseudo (name : String) : Bool :=
  Text.startsWith name pseudoStart

/-- A variable name split at its first point: the resource, the attribute, and whether
    there is a point at all.  Pseudo parameters are never attribute references. -/
def splitAttribute (name : String) : String × String × Bool :=
  if isPseudo name then
    ("", "", false)
  else
    match Text.cut? "." name with
    | some (resource, attr) => (resource, attr, true)
    | none => (name, "", false)

/-- The resource whose attribute a variable names, if it names one. -/
def attributeResource? (name : String) : Option String :=
  match splitAttribute name with
  | (resource, _, true) => some resource
  | (_, _, false) => none

end StackIr.Substitution

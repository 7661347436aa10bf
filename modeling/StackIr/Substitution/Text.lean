import StackIr.Substitution.Scan
import StackIr.Text.Quoted

/-! # Substitution strings of characters and of bytes

    The splitter at the two alphabets that are used: template strings are strings of
    characters, and text from outside is a string of bytes.  Offsets count bytes in
    both. -/

namespace StackIr.Substitution

/-- A placeholder that is opened at byte `start` of `input` and never closed. -/
structure Unterminated where
  input : List UInt8
  start : Nat
  deriving DecidableEq, Repr

namespace Unterminated

/-- The end of the text that was searched for the closing brace. -/
def stop (e : Unterminated) : Nat :=
  e.input.length

/-- The text from the opening on. -/
def text (e : Unterminated) : List UInt8 :=
  e.input.drop e.start

def message (e : Unterminated) : String :=
  "unterminated placeholder " ++ Text.quoteBytes e.text ++ " at offset " ++
    Nat.repr e.start ++ ": missing '\x7d'"

/-- Two lines that point at the placeholder: the input, and a caret below its start. -/
def caret (e : Unterminated) : String :=
  "\t" ++ Text.Utf8.decodeLossy e.input ++ "\n\t" ++ Text.replicate e.start ' ' ++ "^"

end Unterminated

/-- The tokens of a byte string. -/
def scanBytes (input : List UInt8) :
    Except Unterminated (List (Token (List UInt8))) :=
  (scan input).mapError fun rest => ⟨input, input.length - rest.length⟩

/-- The tokens of a string. -/
def scanString (input : String) : Except Unterminated (List (Token String)) :=
  match scan input.toList with
  | .ok tokens => .ok (tokens.map (Token.map String.ofList))
  | .error rest =>
    let bytes := Text.Utf8.encode input
    .error ⟨bytes, bytes.length - (String.ofList rest).utf8ByteSize⟩

/-- Tokens over strings in substitution syntax. -/
def formatString (tokens : List (Token String)) : String :=
  String.ofList (format (tokens.map (Token.map String.toList)))

end StackIr.Substitution

import StackIr.Substitution.Token

/-! # Splitting and writing substitution strings

    `scan` splits a string into tokens and `format` writes tokens back.  Both work over
    any alphabet that has the four characters placeholders are written with:

    * dollar, left brace, name, right brace is a variable;
    * with a bang after the left brace it is the literal text without the bang;
    * everything else is literal text, and literal runs that meet are one token.

    A placeholder ends at the first right brace after its start, so a placeholder that is
    opened and never closed is the only error. -/

namespace StackIr.Substitution

/-- The characters that placeholders are written with. -/
class Alphabet (α : Type) where
  dollar : α
  leftBrace : α
  bang : α
  rightBrace : α
  distinct : [dollar, leftBrace, bang, rightBrace].Nodup

instance : Alphabet Char where
  dollar := '$'
  leftBrace := '\x7b'
  bang := '!'
  rightBrace := '\x7d'
  distinct := by decide

instance : Alphabet UInt8 where
  dollar := 36
  leftBrace := 123
  bang := 33
  rightBrace := 125
  distinct := by decide

variable {α : Type} [DecidableEq α] [Alphabet α]

open Alphabet

/-- What follows an opening dollar and left brace. -/
def afterOpening? : List α → Option (List α)
  | d :: b :: rest => if d = dollar ∧ b = leftBrace then some rest else none
  | _ => none

/-- The text before the first right brace and what follows that brace. -/
def closing? : List α → Option (List α × List α)
  | [] => none
  | c :: rest =>
    if c = rightBrace then some ([], rest)
    else (closing? rest).map fun (body, after) => (c :: body, after)

theorem length_closing? {input body after : List α} (h : closing? input = some (body, after)) :
    after.length < input.length := by
  induction input generalizing body with
  | nil => simp [closing?] at h
  | cons c rest ih =>
    rw [closing?] at h
    split at h
    · obtain ⟨rfl, rfl⟩ := by simpa using h
      simp
    · obtain ⟨p, hp, hq⟩ := Option.map_eq_some_iff.1 h
      obtain ⟨rfl, rfl⟩ := by simpa using hq
      have := ih hp
      simp only [List.length_cons]
      omega

theorem length_afterOpening? {input rest : List α} (h : afterOpening? input = some rest) :
    rest.length + 2 = input.length := by
  match input, h with
  | d :: b :: tail, h =>
    rw [afterOpening?] at h
    split at h
    · obtain rfl := by simpa using h
      simp
    · simp at h

/-- What follows a bang, if the text starts with one. -/
def afterBang? : List α → Option (List α)
  | c :: rest => if c = bang then some rest else none
  | [] => none

theorem length_afterBang? {input rest : List α} (h : afterBang? input = some rest) :
    rest.length + 1 = input.length := by
  match input, h with
  | c :: tail, h =>
    rw [afterBang?] at h
    split at h
    · obtain rfl := by simpa using h
      simp
    · simp at h

/-- Puts literal text in front of a token list, joining it to a literal that starts it. -/
def consLiteral (text : List α) : List (Token (List α)) → List (Token (List α))
  | .literal next :: tokens => .literal (text ++ next) :: tokens
  | tokens => .literal text :: tokens

/-- The body of a placeholder with its opening and closing. -/
def placeholder (body : List α) : List α :=
  dollar :: leftBrace :: (body ++ [rightBrace])

/-- The body of a placeholder with its opening and closing, marked as literal text. -/
def escapedPlaceholder (body : List α) : List α :=
  dollar :: leftBrace :: bang :: (body ++ [rightBrace])

/-- Splits a string into tokens.  The error is the part of the string that starts with the
    first placeholder that is never closed. -/
def scan (input : List α) : Except (List α) (List (Token (List α))) :=
  match input with
  | [] => .ok []
  | c :: rest =>
    match _hOpen : afterOpening? (c :: rest) with
    | none => (scan rest).map (consLiteral [c])
    | some inside =>
      match _hBang : afterBang? inside with
      | some escaped =>
        match _hClose : closing? escaped with
        | none => .error (c :: rest)
        | some (body, after) => (scan after).map (consLiteral (placeholder body))
      | none =>
        match _hClose : closing? inside with
        | none => .error (c :: rest)
        | some (body, after) => (scan after).map (.var body :: ·)
termination_by input.length
decreasing_by
  · simp
  · have h₁ := length_afterOpening? _hOpen
    have h₂ := length_afterBang? _hBang
    have h₃ := length_closing? _hClose
    simp only [List.length_cons] at *
    omega
  · have h₁ := length_afterOpening? _hOpen
    have h₂ := length_closing? _hClose
    simp only [List.length_cons] at *
    omega

/-- Literal text as it is written in a substitution string: every closed placeholder in it
    is escaped as a whole, and an unclosed one has no escaped form and is left alone. -/
def escape (text : List α) : List α :=
  match text with
  | [] => []
  | c :: rest =>
    match _hOpen : afterOpening? (c :: rest) with
    | none => c :: escape rest
    | some inside =>
      match _hClose : closing? inside with
      | none => c :: rest
      | some (body, after) => escapedPlaceholder body ++ escape after
termination_by text.length
decreasing_by
  · simp
  · have h₁ := length_afterOpening? _hOpen
    have h₂ := length_closing? _hClose
    simp only [List.length_cons] at *
    omega

/-- One token in substitution syntax. -/
def Token.format : Token (List α) → List α
  | .literal text => escape text
  | .var name => placeholder name

/-- Tokens in substitution syntax. -/
def format (tokens : List (Token (List α))) : List α :=
  tokens.flatMap Token.format

end StackIr.Substitution

/-! # Places in a document

    A cursor is what is left of a document together with the place where it starts.  Lines
    and columns count characters from zero. -/

namespace StackIr.Yaml

/-! ## Classes of characters -/

/-- Blanks separate words within a line. -/
def isBlank (c : Char) : Bool :=
  c == ' ' || c == '\t'

/-- Breaks end a line. -/
def isBreak (c : Char) : Bool :=
  c == '\n' || c == '\r' || c.toNat == 0x85 || c.toNat == 0x2028 || c.toNat == 0x2029

/-- The characters of names. -/
def isNameChar (c : Char) : Bool :=
  c.isAlphanum || c == '_' || c == '-'

/-- Whether a text has ended or goes on with a blank or a break. -/
def atGap : List Char → Bool
  | [] => true
  | c :: _ => isBlank c || isBreak c

/-- Whether a text has ended or goes on with a break. -/
def atLineEnd : List Char → Bool
  | [] => true
  | c :: _ => isBreak c

/-! ## Cursors -/

/-- A place in a document. -/
structure Mark where
  /-- The number of characters before it. -/
  index : Nat
  line : Nat
  column : Nat
  deriving DecidableEq, Repr

/-- The rest of a document and its place. -/
structure Cursor where
  rest : List Char
  mark : Mark
  /-- The length of the rest, which bounds every loop over it. -/
  left : Nat
  /-- The number of breaks since the last character that is neither a blank nor a break. -/
  breaks : Nat := 0
  deriving Repr

namespace Cursor

/-- The start of a document. -/
def ofList (cs : List Char) : Cursor :=
  { rest := cs, mark := ⟨0, 0, 0⟩, left := cs.length }

def line (c : Cursor) : Nat :=
  c.mark.line

def column (c : Cursor) : Nat :=
  c.mark.column

def peek? (c : Cursor) : Option Char :=
  c.rest.head?

/-- Whether the next character is the given one. -/
def isAt (c : Cursor) (x : Char) : Bool :=
  c.rest.head? == some x

/-- Passes over `n` characters of a line. -/
def skip (n : Nat) (c : Cursor) : Cursor :=
  { rest := c.rest.drop n
    mark := ⟨c.mark.index + n, c.mark.line, c.mark.column + n⟩
    left := c.left - n
    breaks := if (c.rest.take n).all isBlank then c.breaks else 0 }

/-- Passes over the characters of a line for which `p` holds. -/
def skipWhile (p : Char → Bool) (c : Cursor) : Cursor :=
  let n := (c.rest.takeWhile p).length
  c.skip n

/-- The start of the next line, after `n` characters of a break. -/
def nextLine (n : Nat) (c : Cursor) : Cursor :=
  { rest := c.rest.drop n
    mark := ⟨c.mark.index + n, c.mark.line + 1, 0⟩
    left := c.left - n
    breaks := c.breaks + 1 }

/-- Passes over a break, if there is one, and gives what it stands for in a scalar. -/
def takeBreak (c : Cursor) : List Char × Cursor :=
  match c.rest with
  | '\r' :: '\n' :: _ => (['\n'], c.nextLine 2)
  | x :: _ =>
    if x.toNat == 0x2028 || x.toNat == 0x2029 then ([x], c.nextLine 1)
    else if isBreak x then (['\n'], c.nextLine 1)
    else ([], c)
  | [] => ([], c)

/-- Passes over a break, if there is one. -/
def skipBreak (c : Cursor) : Cursor :=
  c.takeBreak.2

/-- Passes over a comment, if one starts here, up to the end of its line, and gives its
    place and its text. -/
def takeComment (c : Cursor) : Option (Mark × List Char) × Cursor :=
  if c.isAt '#' then
    let text := c.rest.takeWhile (!isBreak ·)
    (some (c.mark, text), c.skip text.length)
  else (none, c)

/-- Passes over a comment, if one starts here, up to the end of its line. -/
def skipComment (c : Cursor) : Cursor :=
  c.takeComment.2

/-- Whether a line starts here with a marker of three characters. -/
def atMarker (c : Cursor) (x : Char) : Bool :=
  c.mark.column == 0 &&
    match c.rest with
    | a :: b :: d :: rest => a == x && b == x && d == x && atGap rest
    | _ => false

/-- Whether a document starts or ends here by a marker. -/
def atDocumentMarker (c : Cursor) : Bool :=
  c.atMarker '-' || c.atMarker '.'

end Cursor

end StackIr.Yaml

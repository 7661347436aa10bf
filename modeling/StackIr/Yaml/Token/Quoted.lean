import StackIr.Decimal.Read
import StackIr.Yaml.Token.Gap

/-! # Quoted scalars

    In single quotes only the quote itself is special and is written twice.  In double
    quotes a backslash starts an escape, and one before a line break joins two lines. -/

namespace StackIr.Yaml.Quoted

/-- The kind of quotes around a scalar. -/
inductive Quote where
  | single
  | double
  deriving DecidableEq, Repr

def Quote.char : Quote → Char
  | .single => '\''
  | .double => '"'

/-- The character that a letter after a backslash stands for. -/
def simpleEscape? (c : Char) : Option Char :=
  match c with
  | '0' => some '\x00'
  | 'a' => some '\x07'
  | 'b' => some '\x08'
  | 't' => some '\t'
  | '\t' => some '\t'
  | 'n' => some '\n'
  | 'v' => some '\x0B'
  | 'f' => some '\x0C'
  | 'r' => some '\r'
  | 'e' => some '\x1B'
  | ' ' => some ' '
  | '"' => some '"'
  | '\'' => some '\''
  | '\\' => some '\\'
  | 'N' => some (Char.ofNat 0x85)
  | '_' => some (Char.ofNat 0xA0)
  | 'L' => some (Char.ofNat 0x2028)
  | 'P' => some (Char.ofNat 0x2029)
  | _ => none

/-- The number of hexadecimal digits after a letter. -/
def escapeWidth? (c : Char) : Option Nat :=
  match c with
  | 'x' => some 2
  | 'u' => some 4
  | 'U' => some 8
  | _ => none

/-- The character that an escape stands for and the length of the escape, from what follows
    the backslash. -/
def escape? : List Char → Option (Char × Nat)
  | [] => none
  | c :: rest =>
    match simpleEscape? c with
    | some x => some (x, 2)
    | none =>
      match escapeWidth? c with
      | none => none
      | some width =>
        let digits := rest.take width
        if digits.length < width then none
        else
          match Decimal.digits? 16 digits with
          | none => none
          | some n => if n.isValidChar then some (Char.ofNat n, width + 2) else none

/-- Why the characters of a word ended. -/
inductive WordEnd where
  | gap
  | quote
  | joinedLine
  | badEscape
  deriving DecidableEq, Repr

/-- The characters at the start of a text up to a gap or the closing quote, the number of
    characters they are written with, and why they ended. -/
def word (q : Quote) : (fuel : Nat) → List Char → List Char × Nat × WordEnd
  | 0, _ => ([], 0, .gap)
  | _, [] => ([], 0, .gap)
  | fuel + 1, c :: rest =>
    if isBlank c || isBreak c then ([], 0, .gap)
    else if c == q.char then
      match q, rest with
      | .single, '\'' :: rest =>
        let (cs, n, e) := word q fuel rest
        ('\'' :: cs, n + 2, e)
      | _, _ => ([], 0, .quote)
    else if q = .double && c == '\\' then
      match rest with
      | x :: _ =>
        if isBreak x then ([], 1, .joinedLine)
        else
          match escape? rest with
          | none => ([], 0, .badEscape)
          | some (d, width) =>
            let (cs, n, e) := word q fuel (rest.drop (width - 1))
            (d :: cs, n + width, e)
      | [] => ([], 0, .badEscape)
    else
      let (cs, n, e) := word q fuel rest
      (c :: cs, n + 1, e)

/-- Reads words and gaps up to the closing quote.  `sofar` holds the parts read, last
    first. -/
def readWords (q : Quote) (start : Nat) :
    (fuel : Nat) → (sofar : List (List Char)) → Cursor → Except Fault (List Char × Cursor)
  | 0, _, c => .error (.lexical start c.line "found unexpected end of stream")
  | fuel + 1, sofar, c =>
    if c.atDocumentMarker then
      .error (.lexical start c.line "found unexpected document indicator")
    else if c.rest.isEmpty then
      .error (.lexical start c.line "found unexpected end of stream")
    else
      let (w, n, e) := word q c.left c.rest
      let c := c.skip n
      match e with
      | .badEscape => .error (.lexical start c.line "found unknown escape character")
      | .quote => .ok ((w :: sofar).reverse.flatten, c.skip 1)
      | .gap => do
        let (g, c) ← Gap.read start none c.left {} c
        readWords q start fuel (g.fold :: w :: sofar) c
      | .joinedLine => do
        let (g, c) ← Gap.read start none c.left { broken := true } c.skipBreak
        readWords q start fuel (g.fold :: w :: sofar) c

/-- Reads a scalar whose opening quote comes next. -/
def read (q : Quote) (c : Cursor) : Except Fault (List Char × Cursor) :=
  readWords q c.line (c.left + 1) [] (c.skip 1)

end StackIr.Yaml.Quoted

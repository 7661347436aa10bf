import StackIr.Text.Utf8
import StackIr.Decimal.Read
import StackIr.Yaml.Cursor
import StackIr.Yaml.Encoding
import StackIr.Yaml.Token

/-! # Anchors, tags and directives -/

namespace StackIr.Yaml.Properties

/-! ## Anchors and aliases -/

/-- The characters that may follow the name of an anchor, besides gaps. -/
def mayFollowName (c : Char) : Bool :=
  c == '?' || c == ':' || c == ',' || c == ']' || c == '\x7d' || c == '%' || c == '@' || c == '\x60'

/-- Reads the name of an anchor or alias after its indicator. -/
def readName (c : Cursor) : Except Fault (String × Cursor) :=
  let start := c.line
  let c := c.skip 1
  let name := c.rest.takeWhile isNameChar
  let c := c.skip name.length
  if name.isEmpty || !(atGap c.rest || c.peek?.any mayFollowName) then
    .error (.lexical start c.line "did not find expected alphabetic or numeric character")
  else .ok (String.ofList name, c)

/-! ## Tags -/

/-- The characters that a tag may hold as they are; others are written by their octets. -/
def isTagChar (c : Char) : Bool :=
  isNameChar c || c == ';' || c == '/' || c == '?' || c == ':' || c == '@' || c == '&' ||
    c == '=' || c == '+' || c == '$' || c == ',' || c == '.' || c == '!' || c == '~' ||
    c == '*' || c == '\'' || c == '(' || c == ')' || c == '[' || c == ']'

/-- An octet written as a percent sign and two hexadecimal digits. -/
def octet? : List Char → Option UInt8
  | '%' :: a :: b :: _ => (Decimal.digits? 16 [a, b]).map UInt8.ofNat
  | _ => none

/-- The octets written at the start of a text, at most `fuel`. -/
def octets : (fuel : Nat) → List Char → List UInt8
  | 0, _ => []
  | fuel + 1, cs =>
    match octet? cs with
    | some b => b :: octets fuel (cs.drop 3)
    | none => []

/-- The number of octets in a sequence with the given first one. -/
def sequenceLength? (b : UInt8) : Option Nat :=
  if b < 0x80 then some 1
  else if b < 0xC0 then none
  else if b < 0xE0 then some 2
  else if b < 0xF0 then some 3
  else if b < 0xF8 then some 4
  else none

/-- What the sequence at the start of some octets stands for, and its length: a character,
    or a replacement for each octet if the sequence only has the form of one. -/
def decodeOctets? : List UInt8 → Option (List Char × Nat)
  | [] => none
  | b :: rest =>
    match Text.Utf8.first? (b :: rest) with
    | some (c, width) => some ([c], width)
    | none => do
      let width ← sequenceLength? b
      let tail := rest.take (width - 1)
      if tail.length + 1 = width && tail.all Text.Utf8.isContinuation then
        some (List.replicate width '\ufffd', width)
      else none

/-- The text of a tag, and the number of characters it is written with. -/
def tagText? : (fuel : Nat) → List Char → Option (List Char × Nat)
  | 0, _ => some ([], 0)
  | _, [] => some ([], 0)
  | fuel + 1, c :: rest =>
    if c == '%' then
      match decodeOctets? (octets 4 (c :: rest)) with
      | some (text, width) =>
        (tagText? fuel (rest.drop (3 * width - 1))).map fun (cs, n) => (text ++ cs, n + 3 * width)
      | none => none
    else if isTagChar c then
      (tagText? fuel rest).map fun (cs, n) => (c :: cs, n + 1)
    else some ([], 0)

/-- Reads the text of a tag. -/
def readTagText (start : Nat) (c : Cursor) : Except Fault (List Char × Cursor) :=
  match tagText? c.left c.rest with
  | some (text, n) => .ok (text, c.skip n)
  | none => .error (.lexical start c.line "found an incorrect escaped octet")

/-- The handle at the start of a text: an exclamation mark, a name, and another mark if
    there is one. -/
def handle (cs : List Char) : List Char :=
  match cs with
  | '!' :: rest =>
    let name := rest.takeWhile isNameChar
    match rest.drop name.length with
    | '!' :: _ => '!' :: (name ++ ['!'])
    | _ => '!' :: name
  | _ => []

/-- Whether a handle has both marks. -/
def isClosedHandle (h : List Char) : Bool :=
  h.length > 1 && h.getLast? == some '!'

/-- Reads a tag whose first exclamation mark comes next: its handle and its suffix. -/
def readTag (c : Cursor) : Except Fault ((String × String) × Cursor) := do
  let start := c.line
  let missing (c : Cursor) : Fault := .lexical start c.line "did not find expected tag URI"
  let ((h, suffix), c) ←
    match c.rest with
    | '!' :: '<' :: _ => do
      let (text, c) ← readTagText start (c.skip 2)
      if text.isEmpty then throw (missing c)
      if !c.isAt '>' then throw (.lexical start c.line "did not find the expected '>'")
      pure (([], text), c.skip 1)
    | _ => do
      let h := handle c.rest
      let c := c.skip h.length
      let (text, c) ← readTagText start c
      if isClosedHandle h then
        if text.isEmpty then throw (missing c)
        pure ((h, text), c)
      else
        let suffix := h.drop 1 ++ text
        if suffix.isEmpty then pure (([], h), c) else pure ((['!'], suffix), c)
  if atGap c.rest then pure ((String.ofList h, String.ofList suffix), c)
  else throw (.lexical start c.line "did not find expected whitespace or line break")

/-! ## Directives -/

/-- Reads a number of at most two digits. -/
def readNumber (start : Nat) (c : Cursor) : Except Fault (Nat × Cursor) :=
  let digits := c.rest.takeWhile Char.isDigit
  if digits.length > 2 then
    .error (.lexical start c.line "found extremely long version number")
  else
    match Decimal.digits? 10 digits with
    | some n => .ok (n, c.skip digits.length)
    | none => .error (.lexical start c.line "did not find expected version number")

/-- Reads the version after the name of its directive. -/
def readVersion (start : Nat) (c : Cursor) : Except Fault (TokenKind × Cursor) := do
  let (major, c) ← readNumber start (c.skipWhile isBlank)
  if !c.isAt '.' then
    throw (.lexical start c.line "did not find expected digit or '.' character")
  let (minor, c) ← readNumber start (c.skip 1)
  pure (.versionDirective major minor, c)

/-- Reads a handle and what it stands for after the name of their directive. -/
def readTagDirective (start : Nat) (c : Cursor) : Except Fault (TokenKind × Cursor) := do
  let c := c.skipWhile isBlank
  let h := handle c.rest
  if h.isEmpty || !(h = ['!'] || isClosedHandle h) then
    throw (.lexical start c.line "did not find expected '!'")
  let c := c.skip h.length
  if !c.peek?.any isBlank then
    throw (.lexical start c.line "did not find expected whitespace")
  let (text, c) ← readTagText start (c.skipWhile isBlank)
  if text.isEmpty then throw (.lexical start c.line "did not find expected tag URI")
  if !atGap c.rest then
    throw (.lexical start c.line "did not find expected whitespace or line break")
  pure (.tagDirective (String.ofList h) (String.ofList text), c)

/-- Reads a directive and the rest of its line. -/
def readDirective (c : Cursor) : Except Fault (TokenKind × Cursor) := do
  let start := c.line
  let c := c.skip 1
  let name := c.rest.takeWhile isNameChar
  let c := c.skip name.length
  if name.isEmpty then
    throw (.lexical start c.line "could not find expected directive name")
  if !atGap c.rest then
    throw (.lexical start c.line "found unexpected non-alphabetical character")
  let (kind, c) ←
    if name = "YAML".toList then readVersion start c
    else if name = "TAG".toList then readTagDirective start c
    else throw (.lexical start c.line "found unknown directive name")
  let c := (c.skipWhile isBlank).skipComment
  if !atLineEnd c.rest then
    throw (.lexical start c.line "did not find expected comment or line break")
  pure (kind, c.skipBreak)

end StackIr.Yaml.Properties

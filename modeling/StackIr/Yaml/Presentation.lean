import StackIr.Text.Cut
import StackIr.Yaml.Cursor
import StackIr.Yaml.Resolution
import StackIr.Yaml.Token

/-! # How scalars are written

    A text is written plain if it reads back as itself, in quotes if it does not, and as a
    literal block if it has several lines.  What a text holds decides which of these are
    possible. -/

namespace StackIr.Yaml.Presentation

/-- The characters that are written as they are. -/
def isPrintable (c : Char) : Bool :=
  let n := c.toNat
  n == 0x0A || (0x20 ≤ n && n ≤ 0x7E) || (0xA0 ≤ n && n ≤ 0xD7FF) ||
    (0xE000 ≤ n && n ≤ 0xFFFD && n != 0xFEFF)

/-- Whether a character with `p` comes right before one with `q`. -/
def hasPair (p q : Char → Bool) : List Char → Bool
  | a :: b :: rest => (p a && q b) || hasPair p q (b :: rest)
  | _ => false

def isSpace (c : Char) : Bool :=
  c == ' '

/-- Whether a text has ended or goes on with a blank. -/
def beforeBlank : List Char → Bool
  | [] => true
  | c :: _ => isBlank c

/-- Whether the first character of a text gives it a meaning of its own. -/
def startsSpecially : List Char → Bool
  | [] => false
  | c :: rest =>
    c == '#' || c == ',' || c == '[' || c == ']' || c == '\x7b' || c == '\x7d' || c == '&' ||
      c == '*' || c == '!' || c == '|' || c == '>' || c == '\'' || c == '"' || c == '%' ||
      c == '@' || c == '\x60' ||
      ((c == '?' || c == ':' || c == '-') && beforeBlank rest)

/-- Whether a later character ends a plain text: a colon before a blank, or a number sign
    after one. -/
def endsEarly : (previous : Char) → List Char → Bool
  | _, [] => false
  | previous, c :: rest =>
    (c == ':' && beforeBlank rest) ||
      (c == '#' && (isBlank previous || isBreak previous)) || endsEarly c rest

/-- Whether a text starts like a document marker. -/
def startsLikeMarker (cs : List Char) : Bool :=
  ['-', '-', '-'].isPrefixOf cs || ['.', '.', '.'].isPrefixOf cs

def hasBreaks (cs : List Char) : Bool :=
  cs.any isBreak

/-- Whether a text holds a character that has to be escaped. -/
def hasSpecial (cs : List Char) : Bool :=
  cs.any fun c => c != '\t' && !isPrintable c

/-- Whether a text can be written in single quotes. -/
def singleAllowed (cs : List Char) : Bool :=
  !(hasPair isBreak isSpace cs || hasPair isSpace isBreak cs || cs.contains '\t' || hasSpecial cs)

/-- Whether a text can be written plain. -/
def plainAllowed (cs : List Char) : Bool :=
  match cs with
  | [] => true
  | c :: rest =>
    singleAllowed cs && !hasBreaks cs && !startsLikeMarker cs && !startsSpecially cs &&
      !endsEarly c rest && c != ' ' && cs.getLast? != some ' '

/-- Whether a text can be written as a block. -/
def blockAllowed (cs : List Char) : Bool :=
  !cs.isEmpty && cs.getLast? != some ' ' && !hasPair isSpace isBreak cs && !hasSpecial cs

/-- The style of a text.  `forced` asks for quotes; a simple key is on one line. -/
def style (cs : List Char) (forced simpleKey : Bool) : ScalarStyle :=
  let quoted : ScalarStyle := if singleAllowed cs then .singleQuoted else .doubleQuoted
  if simpleKey && hasBreaks cs then .doubleQuoted
  else if cs.contains '\n' then
    if blockAllowed cs && !simpleKey then .literal else .doubleQuoted
  else if forced then .doubleQuoted
  else if !plainAllowed cs || (cs.isEmpty && simpleKey) then quoted
  else .plain

/-! ## Escapes -/

/-- A number in upper-case hexadecimal digits, at least `width` of them. -/
def upperHex (width n : Nat) : List Char :=
  let digits := (Nat.toDigits 16 n).map Char.toUpper
  List.replicate (width - digits.length) '0' ++ digits

/-- The escape of a character inside double quotes. -/
def escape (c : Char) : List Char :=
  '\\' ::
    match c.toNat with
    | 0x00 => ['0']
    | 0x07 => ['a']
    | 0x08 => ['b']
    | 0x09 => ['t']
    | 0x0A => ['n']
    | 0x0B => ['v']
    | 0x0C => ['f']
    | 0x0D => ['r']
    | 0x1B => ['e']
    | 0x22 => ['"']
    | 0x5C => ['\\']
    | 0x85 => ['N']
    | 0xA0 => ['_']
    | 0x2028 => ['L']
    | 0x2029 => ['P']
    | n =>
      if n ≤ 0xFF then 'x' :: upperHex 2 n
      else if n ≤ 0xFFFF then 'u' :: upperHex 4 n
      else 'U' :: upperHex 8 n

/-- A text inside double quotes.  A text that starts with a byte order mark is escaped
    throughout. -/
def doubleQuoted (cs : List Char) : List Char :=
  let marked := cs.head? == some '\ufeff'
  cs.flatMap fun c =>
    if marked || !isPrintable c || isBreak c || c == '"' || c == '\\' then escape c else [c]

/-! ## Tags -/

/-- The characters that are written as they are in a tag. -/
def isTagChar (c : Char) : Bool :=
  isNameChar c || c == ';' || c == '/' || c == '?' || c == ':' || c == '@' || c == '&' ||
    c == '=' || c == '+' || c == '$' || c == ',' || c == '.' || c == '~' || c == '*' ||
    c == '\'' || c == '(' || c == ')' || c == '[' || c == ']'

/-- A text inside a tag. -/
def tagText (s : String) : List Char :=
  s.toList.flatMap fun c =>
    if isTagChar c then [c]
    else (String.singleton c).toUTF8.toList.flatMap fun b => '%' :: upperHex 2 b.toNat

/-- A tag as its handle, which may be missing, and the rest. -/
def splitTag (tag : String) : String × String :=
  let rest (n : Nat) := String.ofList (tag.toList.drop n)
  if Text.startsWith tag "!!" then ("!!", rest 2)
  else if Text.startsWith tag "!" then ("!", rest 1)
  else ("", tag)

/-- How the tag of a node shows: not at all, by quotes, or written out. -/
inductive TagShown where
  | implied
  | byQuotes
  | written (tag : String)
  deriving DecidableEq, Repr

/-- How the tag of a scalar shows. -/
def scalarTag (tag text : String) : TagShown :=
  if tag = Meaning.implicitTag text then .implied
  else if tag = "!!str" then .byQuotes
  else .written tag

/-- How the tag of a collection shows, from the tag that it would have anyway. -/
def collectionTag (tag implied : String) : TagShown :=
  if tag = implied then .implied
  else if tag = "!!str" then .byQuotes
  else .written tag

end StackIr.Yaml.Presentation

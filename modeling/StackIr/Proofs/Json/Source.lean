import StackIr.Proofs.Json.Unambiguous

/-! # JSON texts

    A JSON text taken apart by the grammar of JSON: the values, the whitespace between tokens,
    and the spelling of every character of a string.  What a text says is its `shape`, which
    forgets whitespace and spelling and keeps the digits of numbers and the order of members.

    JSON texts are read as YAML, which is not always the same.  `legible` holds of the texts that
    are read as what they say, and each of its conditions is there because the reader does
    something else with the rest. -/

namespace StackIr.Json

/-! ## Nesting -/

mutual

/-- How deep arrays and objects are nested. -/
def Shape.depth : Shape → Nat
  | .array items => Shape.itemsDepth items + 1
  | .object members => Shape.membersDepth members + 1
  | _ => 0

def Shape.itemsDepth : List Shape → Nat
  | [] => 0
  | item :: items => max item.depth (Shape.itemsDepth items)

def Shape.membersDepth : List (String × Shape) → Nat
  | [] => 0
  | (_, value) :: members => max value.depth (Shape.membersDepth members)

end

/-! ## Whitespace -/

/-- The whitespace of JSON. -/
def isWhitespace (c : Char) : Bool :=
  c == ' ' || c == '\t' || c == '\n' || c == '\r'

/-- What stands between two tokens. -/
structure Space where
  chars : List Char
  blank : ∀ c ∈ chars, isWhitespace c = true

/-! ## Words -/

structure Digits where
  chars : List Char
  nonempty : chars ≠ []
  digits : ∀ c ∈ chars, c.isDigit = true

structure Exponent where
  letter : Char
  sign : List Char
  digits : Digits
  isLetter : letter = 'e' ∨ letter = 'E'
  isSign : sign = [] ∨ sign = ['+'] ∨ sign = ['-']

/-- A number, which has no zeros in front. -/
structure Number where
  negative : Bool
  whole : Digits
  leading : whole.chars.head? = some '0' → whole.chars = ['0']
  fraction : Option Digits
  exponent : Option Exponent

def Number.text (n : Number) : List Char :=
  (if n.negative then ['-'] else []) ++ (n.whole.chars ++
    ((n.fraction.elim [] fun d => '.' :: d.chars) ++
      n.exponent.elim [] fun e => e.letter :: (e.sign ++ e.digits.chars)))

/-- A value that is written without quotes and brackets. -/
inductive Word where
  | null
  | bool (b : Bool)
  | number (n : Number)

def Word.text : Word → List Char
  | .null => "null".toList
  | .bool b => if b then "true".toList else "false".toList
  | .number n => n.text

/-! ## Strings -/

/-- The letters after a backslash, and what they stand for. -/
def letters : List (Char × Char) :=
  [('"', '"'), ('\\', '\\'), ('/', '/'), ('b', '\x08'), ('f', '\x0C'), ('n', '\n'), ('r', '\r'),
    ('t', '\t')]

/-- The four hexadecimal digits of a number, in either case. -/
def IsHex (digits : List Char) (n : Nat) : Prop :=
  n < 0x10000 ∧ digits.map Char.toLower = Text.hex 4 n

/-- The digits of the two surrogates that stand for a character beyond those of four digits. -/
def IsPair (high low : List Char) (c : Char) : Prop :=
  0x10000 ≤ c.toNat ∧ IsHex high (0xD800 + (c.toNat - 0x10000) / 0x400) ∧
    IsHex low (0xDC00 + (c.toNat - 0x10000) % 0x400)

/-- A character of a string and how it is spelled. -/
inductive Piece where
  | raw (c : Char) (isRaw : 0x20 ≤ c.toNat ∧ c ≠ '"' ∧ c ≠ '\\')
  | letter (l c : Char) (isLetter : (l, c) ∈ letters)
  | number (digits : List Char) (c : Char) (isHex : IsHex digits c.toNat)
  | pair (high low : List Char) (c : Char) (isPair : IsPair high low c)

namespace Piece

/-- The character that a piece stands for. -/
def char : Piece → Char
  | .raw c _ => c
  | .letter _ c _ => c
  | .number _ c _ => c
  | .pair _ _ c _ => c

def text : Piece → List Char
  | .raw c _ => [c]
  | .letter l _ _ => ['\\', l]
  | .number digits _ _ => '\\' :: 'u' :: digits
  | .pair high low _ _ => '\\' :: 'u' :: (high ++ '\\' :: 'u' :: low)

/-- The characters of some pieces. -/
def said (pieces : List Piece) : String :=
  String.ofList (pieces.map char)

/-- Some pieces between quotes. -/
def quoted (pieces : List Piece) : List Char :=
  '"' :: (pieces.flatMap text ++ ['"'])

end Piece

/-! ## Values -/

mutual

/-- A value as it is written. -/
inductive Source where
  | word (w : Word)
  | string (pieces : List Piece)
  | array (items : SourceItems)
  | object (members : SourceMembers)

/-- The items of an array, with the whitespace around each of them and before the bracket. -/
inductive SourceItems where
  | nil (gap : Space)
  | cons (before : Space) (value : Source) (after : Space) (rest : SourceItems)

/-- The members of an object, with the whitespace around keys and values and before the
    bracket. -/
inductive SourceMembers where
  | nil (gap : Space)
  | cons (before : Space) (key : List Piece) (beforeColon afterColon : Space) (value : Source)
      (after : Space) (rest : SourceMembers)

end

mutual

def Source.text : Source → List Char
  | .word w => w.text
  | .string pieces => Piece.quoted pieces
  | .array items => '[' :: (items.text true ++ [']'])
  | .object members => '\x7b' :: (members.text true ++ ['\x7d'])

/-- The text of items, with a comma before each of them but the first of all. -/
def SourceItems.text (first : Bool) : SourceItems → List Char
  | .nil gap => gap.chars
  | .cons before value after rest =>
    (if first then [] else [',']) ++
      (before.chars ++ (value.text ++ (after.chars ++ rest.text false)))

/-- The text of members, with a comma before each of them but the first of all. -/
def SourceMembers.text (first : Bool) : SourceMembers → List Char
  | .nil gap => gap.chars
  | .cons before key beforeColon afterColon value after rest =>
    (if first then [] else [',']) ++
      (before.chars ++ (Piece.quoted key ++ (beforeColon.chars ++
        (':' :: (afterColon.chars ++ (value.text ++ (after.chars ++ rest.text false)))))))

end

mutual

/-- What a value says. -/
def Source.shape : Source → Shape
  | .word w => .word w.text
  | .string pieces => .string (Piece.said pieces)
  | .array items => .array items.shape
  | .object members => .object members.shape

def SourceItems.shape : SourceItems → List Shape
  | .nil _ => []
  | .cons _ value _ rest => value.shape :: rest.shape

def SourceMembers.shape : SourceMembers → List (String × Shape)
  | .nil _ => []
  | .cons _ key _ _ value _ rest => (Piece.said key, value.shape) :: rest.shape

end

/-- A text with an object at the top. -/
structure ObjectText where
  before : Space
  members : SourceMembers
  after : Space

namespace ObjectText

def root (t : ObjectText) : Source :=
  .object t.members

def chars (t : ObjectText) : List Char :=
  t.before.chars ++ (t.root.text ++ t.after.chars)

def bytes (t : ObjectText) : List UInt8 :=
  Text.Utf8.encode (String.ofList t.chars)

def shape (t : ObjectText) : Shape :=
  t.root.shape

end ObjectText

/-! ## Legible texts -/

/-- The reader knows no escaped slash and no escaped surrogates.  It refuses some characters
    unless they are escaped, and takes U+0085 for the end of a line. -/
def Piece.legible : Piece → Bool
  | .raw c _ => Yaml.isAllowed c && (!Yaml.isBreak c || Yaml.isSeparator c)
  | .letter l _ _ => l != '/'
  | .number .. => true
  | .pair .. => false

/-- A line separator ends a line for the reader.  It is kept, but blanks around it are not, and a
    marker of a document behind it is not a part of the string. -/
def legibleString (pieces : List Piece) : Bool :=
  pieces.all Piece.legible && Yaml.Quoted.keepsSeparators (pieces.flatMap Piece.text)

/-- A key is known by the colon behind it, which has to be on the same line and within 1024
    characters of the key's start. -/
def legibleKeyText (key : List Piece) (beforeColon : Space) : Bool :=
  key.all Piece.legible && (key.flatMap Piece.text).all (!Yaml.isBreak ·) &&
    beforeColon.chars.all Yaml.isBlank &&
    (Piece.quoted key).length + beforeColon.chars.length ≤ 1024

mutual

/-- The values that are read as what they say. -/
def Source.legible : Source → Bool
  | .word _ => true
  | .string pieces => legibleString pieces
  | .array items => items.legible
  | .object members => members.legible

def SourceItems.legible : SourceItems → Bool
  | .nil _ => true
  | .cons _ value _ rest => value.legible && rest.legible

def SourceMembers.legible : SourceMembers → Bool
  | .nil _ => true
  | .cons _ key beforeColon _ value _ rest =>
    legibleKeyText key beforeColon && value.legible && rest.legible

end

/-- The texts that are read as what they say.  Outside the brackets a line must not start with
    whitespace that holds a tab. -/
def ObjectText.legible (t : ObjectText) : Bool :=
  t.before.chars.all (· != '\t') && t.members.legible &&
    (t.after.chars.dropWhile Yaml.isBlank).all (· != '\t')

end StackIr.Json

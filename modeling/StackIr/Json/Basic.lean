import StackIr.Decimal.Layout
import StackIr.Text.Quoted

/-! # JSON documents

    A JSON document is a tree whose objects keep their members in the order they are
    written.  It has one compact text and one indented text.  Floating point numbers that
    are not finite have no text, and a document that holds one is refused.  Texts that are
    made in several steps are read again in between, and then there may not be too many arrays
    and objects inside each other. -/

namespace StackIr

/-- A JSON document. -/
inductive Json where
  | null
  | bool (b : Bool)
  | int (i : Int)
  | float (x : Binary64)
  | string (s : String)
  | array (items : List Json)
  | object (members : List (String × Json))
  deriving Repr

namespace Json

/-! ## Strings -/

/-- How strings are escaped. -/
structure Escaping where
  /-- Whether the characters that mean something in markup are written by number. -/
  markup : Bool

/-- The escaping of documents. -/
def Escaping.safe : Escaping := ⟨true⟩

/-- The escaping that leaves markup characters alone. -/
def Escaping.bare : Escaping := ⟨false⟩

/-- A character by its number. -/
def unicodeEscape (c : Char) : List Char :=
  '\\' :: 'u' :: Text.hex 4 c.toNat

/-- A character inside a JSON string. -/
def escapeChar (e : Escaping) (c : Char) : List Char :=
  if c = '"' then ['\\', '"']
  else if c = '\\' then ['\\', '\\']
  else if c = '\x08' then ['\\', 'b']
  else if c = '\x0C' then ['\\', 'f']
  else if c = '\n' then ['\\', 'n']
  else if c = '\r' then ['\\', 'r']
  else if c = '\t' then ['\\', 't']
  else if c.toNat < 0x20 then unicodeEscape c
  else if e.markup && (c = '<' || c = '>' || c = '&') then unicodeEscape c
  else if c.toNat = 0x2028 || c.toNat = 0x2029 then unicodeEscape c
  else [c]

/-- A text as a JSON string. -/
def stringText (e : Escaping) (s : String) : List Char :=
  '"' :: (s.toList.flatMap (escapeChar e) ++ ['"'])

/-! ## Compact text -/

/-- The decimal digits of a whole number. -/
def intText (i : Int) : List Char :=
  if i < 0 then '-' :: Nat.toDigits 10 i.natAbs else Nat.toDigits 10 i.natAbs

mutual

/-- The compact text of a document. -/
def compact (e : Escaping) : Json → List Char
  | .null => "null".toList
  | .bool true => "true".toList
  | .bool false => "false".toList
  | .int i => intText i
  | .float x => (Decimal.Layout.json.render x).toList
  | .string s => stringText e s
  | .array items => '[' :: (compactItems e items ++ [']'])
  | .object members => '\x7b' :: (compactMembers e members ++ ['\x7d'])

/-- The items of an array with commas between them. -/
def compactItems (e : Escaping) : List Json → List Char
  | [] => []
  | [item] => compact e item
  | item :: items => compact e item ++ ',' :: compactItems e items

/-- The members of an object with commas between them. -/
def compactMembers (e : Escaping) : List (String × Json) → List Char
  | [] => []
  | [(key, value)] => stringText e key ++ ':' :: compact e value
  | (key, value) :: members =>
    stringText e key ++ ':' :: (compact e value ++ ',' :: compactMembers e members)

end

/-! ## Indented text -/

/-- A line break and the indentation of a level, two spaces each. -/
def newLine (level : Nat) : List Char :=
  '\n' :: List.replicate (2 * level) ' '

mutual

/-- The indented text of a document at a level.  Empty arrays and objects stay on one
    line. -/
def indented (e : Escaping) (level : Nat) : Json → List Char
  | .null => "null".toList
  | .bool true => "true".toList
  | .bool false => "false".toList
  | .int i => intText i
  | .float x => (Decimal.Layout.json.render x).toList
  | .string s => stringText e s
  | .array [] => ['[', ']']
  | .array (item :: items) =>
    '[' :: (newLine (level + 1) ++ indented e (level + 1) item ++
      indentedItems e (level + 1) items ++ newLine level ++ [']'])
  | .object [] => ['\x7b', '\x7d']
  | .object ((key, value) :: members) =>
    '\x7b' :: (newLine (level + 1) ++ stringText e key ++ ':' :: ' ' ::
      (indented e (level + 1) value ++
        indentedMembers e (level + 1) members ++ newLine level ++ ['\x7d']))

/-- The items after the first, each on a line of its own. -/
def indentedItems (e : Escaping) (level : Nat) : List Json → List Char
  | [] => []
  | item :: items =>
    ',' :: (newLine level ++ indented e level item ++ indentedItems e level items)

/-- The members after the first, each on a line of its own. -/
def indentedMembers (e : Escaping) (level : Nat) : List (String × Json) → List Char
  | [] => []
  | (key, value) :: members =>
    ',' :: (newLine level ++ stringText e key ++ ':' :: ' ' ::
      (indented e level value ++ indentedMembers e level members))

end

/-! ## Documents without a text -/

/-- Why a document has no text. -/
inductive Refusal where
  /-- A number that is not finite. -/
  | number (x : Binary64)
  /-- A bracket that has too many others around it. -/
  | tooDeep (bracket : Char)
  deriving DecidableEq, Repr

def Refusal.message : Refusal → String
  | .number x => "json: unsupported value: " ++ Decimal.Layout.general.render x
  | .tooDeep bracket =>
    "invalid character " ++ String.ofList ['\'', bracket, '\''] ++ " exceeded max depth"

mutual

/-- The first number of a document that is not finite. -/
def unsupported? : Json → Option Binary64
  | .float x => if x.isFinite then none else some x
  | .array items => unsupportedItem? items
  | .object members => unsupportedMember? members
  | _ => none

/-- The first number of some items that is not finite. -/
def unsupportedItem? : List Json → Option Binary64
  | [] => none
  | item :: items => (unsupported? item).or (unsupportedItem? items)

/-- The first number of some members that is not finite. -/
def unsupportedMember? : List (String × Json) → Option Binary64
  | [] => none
  | (_, value) :: members => (unsupported? value).or (unsupportedMember? members)

end

mutual

/-- The bracket of the first array or object that has `level` others around it. -/
def bracketAt? : Json → (level : Nat) → Option Char
  | .array _, 0 => some '['
  | .object _, 0 => some '\x7b'
  | .array items, level + 1 => bracketAtItem? items level
  | .object members, level + 1 => bracketAtMember? members level
  | _, _ => none

def bracketAtItem? : List Json → (level : Nat) → Option Char
  | [], _ => none
  | item :: items, level => (bracketAt? item level).or (bracketAtItem? items level)

def bracketAtMember? : List (String × Json) → (level : Nat) → Option Char
  | [], _ => none
  | (_, value) :: members, level =>
    (bracketAt? value level).or (bracketAtMember? members level)

end

/-- How many arrays and objects may be inside each other in a text that is read again. -/
def levelLimit : Nat := 10000

/-- The bracket for which a text is refused when it is read again. -/
def tooDeep? (j : Json) : Option Refusal :=
  (j.bracketAt? levelLimit).map .tooDeep

mutual

/-- What a document is refused for if the text of each part is read again as soon as it is
    there. -/
def refusal? : Json → Option Refusal
  | .float x => if x.isFinite then none else some (.number x)
  | .array items => (refusalOfItem? items).or (tooDeep? (.array items))
  | .object members => (refusalOfMember? members).or (tooDeep? (.object members))
  | _ => none

def refusalOfItem? : List Json → Option Refusal
  | [] => none
  | item :: items => (refusal? item).or (refusalOfItem? items)

def refusalOfMember? : List (String × Json) → Option Refusal
  | [] => none
  | (_, value) :: members => (refusal? value).or (refusalOfMember? members)

end

/-- The number that a document is refused for. -/
def numberRefusal? (j : Json) : Option Refusal :=
  j.unsupported?.map .number

/-- A text, unless there is a reason to refuse it. -/
def textUnless (refusal : Option Refusal) (text : List Char) : Except Refusal String :=
  match refusal with
  | some r => .error r
  | none => .ok (String.ofList text)

/-- The compact text of a document, which is made in one step. -/
def compactText (e : Escaping) (j : Json) : Except Refusal String :=
  textUnless j.numberRefusal? (compact e j)

/-- The indented text of a document, which is made by reading its compact text. -/
def indentedText (e : Escaping) (j : Json) : Except Refusal String :=
  textUnless (j.numberRefusal?.or j.tooDeep?) (indented e 0 j)

/-! ## Building objects -/

/-- A list of texts. -/
def strings (items : List String) : Json :=
  .array (items.map .string)

/-- A list that may be absent. -/
def arrayOrNull {α : Type} (f : α → Json) : Option (List α) → Json
  | none => .null
  | some items => .array (items.map f)

/-- A member that is left out when its text is empty. -/
def textMember (key : String) (s : String) : List (String × Json) :=
  if s.isEmpty then [] else [(key, .string s)]

/-- A member that is left out when its list is empty. -/
def textsMember (key : String) (items : List String) : List (String × Json) :=
  if items.isEmpty then [] else [(key, strings items)]

end Json

end StackIr

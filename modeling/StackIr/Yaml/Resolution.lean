import StackIr.Decimal.Read
import StackIr.Text.Cut
import StackIr.Yaml.Encoding
import StackIr.Yaml.Timestamp

/-! # What plain scalars mean

    A plain scalar without a tag is a null, a boolean, a number or a timestamp if it is
    spelled like one, and a string otherwise. -/

namespace StackIr.Yaml

/-- The meaning of a scalar. -/
inductive Meaning where
  | null
  | bool (b : Bool)
  | int (i : Int)
  /-- A whole number that needs all 64 bits. -/
  | large (n : Nat)
  | float (x : Binary64)
  | timestamp
  | string
  deriving DecidableEq, Repr

namespace Meaning

/-- The tag of a meaning. -/
def tag : Meaning → String
  | .null => "!!null"
  | .bool _ => "!!bool"
  | .int _ => "!!int"
  | .large _ => "!!int"
  | .float _ => "!!float"
  | .timestamp => "!!timestamp"
  | .string => "!!str"

/-- The words that have a meaning of their own. -/
def words : List (String × Meaning) :=
  [ ("", .null), ("~", .null), ("null", .null), ("Null", .null), ("NULL", .null),
    ("true", .bool true), ("True", .bool true), ("TRUE", .bool true),
    ("false", .bool false), ("False", .bool false), ("FALSE", .bool false),
    (".nan", .float .nan), (".NaN", .float .nan), (".NAN", .float .nan),
    (".inf", .float (.infinity false)), (".Inf", .float (.infinity false)),
    (".INF", .float (.infinity false)), ("+.inf", .float (.infinity false)),
    ("+.Inf", .float (.infinity false)), ("+.INF", .float (.infinity false)),
    ("-.inf", .float (.infinity true)), ("-.Inf", .float (.infinity true)),
    ("-.INF", .float (.infinity true)) ]

/-- A whole number of 64 bits, with or without a sign. -/
def whole? (read : List Char → Option Nat) (cs : List Char) : Option Meaning :=
  match Decimal.int64? read cs with
  | some i => some (.int i)
  | none =>
    match read cs with
    | some n => if Decimal.fitsUInt64 n then some (.large n) else none
    | none => none

/-- A whole number after a mark for its base, which may have its sign on either side of the
    mark. -/
def marked? (mark : Char) (base : Nat) (cs : List Char) : Option Meaning :=
  match cs with
  | '0' :: m :: digits => if m = mark then whole? (Decimal.digits? base) digits else none
  | '-' :: '0' :: m :: digits =>
    if m = mark then (Decimal.int64? (Decimal.digits? base) ('-' :: digits)).map .int else none
  | _ => none

/-- A number that starts with a digit or a sign. -/
def number? (cs : List Char) : Option Meaning :=
  let plain := cs.filter (· != '_')
  (whole? Decimal.based? plain).or
    (((Decimal.float? plain).map .float).or
      ((marked? 'b' 2 plain).or (marked? 'o' 8 plain)))

/-- The meaning of a plain scalar by its spelling.  Timestamps are told apart only if
    `dates` holds. -/
def ofText (dates : Bool) (text : String) : Meaning :=
  match words.lookup text with
  | some m => m
  | none =>
    let cs := text.toList
    match cs with
    | [] => .null
    | c :: _ =>
      if c = '.' then
        match Decimal.separatedFloat? cs with
        | some x => .float x
        | none => .string
      else if c.isDigit || c = '+' || c = '-' then
        if dates && Timestamp.isTimestamp cs then .timestamp
        else (number? cs).getD .string
      else .string

/-- The tag of a plain scalar that has none. -/
def implicitTag (text : String) : String :=
  (ofText true text).tag

/-! ## Scalars with a tag -/

/-- What is wrong when a text is not what its tag says. -/
def mismatch (m : Meaning) (text tag : String) : Fault :=
  .general ("cannot decode " ++ m.tag ++ " `" ++ text ++ "` as a " ++ tag)

/-- The truth value of a scalar with that tag. -/
def toBool (text : String) : Except Fault Bool :=
  match ofText false text with
  | .bool b => .ok b
  | m => .error (mismatch m text "!!bool")

/-- The number of a scalar with the tag of whole numbers: itself if it fits, and the nearest
    floating point number if it is larger. -/
def toWhole (text : String) : Except Fault (Int ⊕ Binary64) :=
  match ofText false text with
  | .int i => .ok (.inl i)
  | .large n => .ok (.inr (.ofInt n))
  | m => .error (mismatch m text "!!int")

/-- The number of a scalar with the tag of floating point numbers. -/
def toFloat (text : String) : Except Fault Binary64 :=
  match ofText false text with
  | .float x => .ok x
  | .int i => .ok (.ofInt i)
  | m => .error (mismatch m text "!!float")

end Meaning

/-- A tag of the common kinds in its short spelling. -/
def shortTag (tag : String) : String :=
  let long := "tag:yaml.org,2002:"
  if Text.startsWith tag long then
    "!!" ++ String.ofList (tag.toList.drop long.length)
  else tag

end StackIr.Yaml

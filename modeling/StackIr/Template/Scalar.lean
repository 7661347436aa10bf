import StackIr.Json.Basic

/-! # Leaves of lookup tables -/

namespace StackIr

/-- A leaf of a lookup table. -/
inductive Scalar where
  | int (i : Int)
  | float (x : Binary64)
  | bool (b : Bool)
  | string (s : String)
  | strings (items : List String)
  deriving DecidableEq, Repr

/-- The kind of a leaf.  Numbers that stand for no kind are kept as numbers. -/
inductive ScalarKind where
  | int
  | float
  | bool
  | string
  | strings
  | other (number : Int)
  deriving DecidableEq, Repr

namespace ScalarKind

def ofNumber (n : Int) : ScalarKind :=
  if n = 0 then .int
  else if n = 1 then .float
  else if n = 2 then .bool
  else if n = 3 then .string
  else if n = 4 then .strings
  else .other n

def name : ScalarKind → String
  | .int => "Int"
  | .float => "Float"
  | .bool => "Bool"
  | .string => "String"
  | .strings => "StringList"
  | .other n => "ScalarKind(" ++ String.ofList (Json.intText n) ++ ")"

end ScalarKind

namespace Scalar

def kind : Scalar → ScalarKind
  | .int _ => .int
  | .float _ => .float
  | .bool _ => .bool
  | .string _ => .string
  | .strings _ => .strings

/-- A leaf in messages. -/
def display : Scalar → String
  | .int i => String.ofList (Json.intText i)
  | .float x => Decimal.Layout.general.render x
  | .bool b => if b then "true" else "false"
  | .string s => s
  | .strings items => "[" ++ String.intercalate ", " items ++ "]"

def toJson : Scalar → Json
  | .int i => .int i
  | .float x => .float x
  | .bool b => .bool b
  | .string s => .string s
  | .strings items => Json.strings items

end Scalar

end StackIr

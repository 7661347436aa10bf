import StackIr.Json.Basic
import StackIr.OrderedMap

/-! # Template values

    What a template says about a property, a condition or an output: primitives, strings,
    lists and objects.  The fields of an object have no order of their own.  Decoding leaves them
    in increasing order of their keys (`Value.Ordered`). -/

namespace StackIr

/-- A value that is neither a string nor made of other values. -/
inductive Primitive where
  | null
  | bool (b : Bool)
  /-- A whole number of a template. -/
  | int (i : Int)
  /-- A whole number that a program counts with; no template text denotes one. -/
  | count (i : Int)
  | float (x : Binary64)
  deriving DecidableEq, Repr

/-- A value of a type that templates do not have.  All that is known of it is the name of
    its type, how it is shown and how it is encoded. -/
structure Foreign where
  typeName : String
  display : String
  json : Json
  deriving Repr

/-- A template value. -/
inductive Value where
  | prim (p : Primitive)
  | string (s : String)
  | list (items : List Value)
  | object (fields : List (String × Value))
  | foreign (f : Foreign)
  deriving Repr

/-- The fields of every object in a value are in increasing order of their keys. -/
inductive Value.Ordered : Value → Prop where
  | prim (p : Primitive) : Ordered (.prim p)
  | string (s : String) : Ordered (.string s)
  | list {items : List Value} : (∀ item ∈ items, Ordered item) → Ordered (.list items)
  | object {fields : List (String × Value)} : Fields.Increasing fields →
      (∀ field ∈ fields, Ordered field.2) → Ordered (.object fields)
  | foreign (f : Foreign) : Ordered (.foreign f)

namespace Primitive

def typeName : Primitive → String
  | .null => "<nil>"
  | .bool _ => "bool"
  | .int _ => "int64"
  | .count _ => "int"
  | .float _ => "float64"

def display : Primitive → String
  | .null => "<nil>"
  | .bool b => if b then "true" else "false"
  | .int i | .count i => String.ofList (Json.intText i)
  | .float x => Decimal.Layout.general.render x

def toJson : Primitive → Json
  | .null => .null
  | .bool b => .bool b
  | .int i | .count i => .int i
  | .float x => .float x

end Primitive

namespace Value

def null : Value := .prim .null

instance : Inhabited Value := ⟨null⟩

def isNull : Value → Bool
  | .prim .null => true
  | _ => false

/-- The object of a list of pairs; of several pairs with one key the last counts. -/
def ofPairs (pairs : List (String × Value)) : Value :=
  .object (Fields.ofList pairs)

/-- The text of a string. -/
def string? : Value → Option String
  | .string s => some s
  | _ => none

/-- The fields of an object. -/
def object? : Value → Option (List (String × Value))
  | .object fields => some fields
  | _ => none

/-- The name of a value's type in messages. -/
def typeName : Value → String
  | .prim p => p.typeName
  | .string _ => "string"
  | .list _ => "[]interface \x7b\x7d"
  | .object _ => "map[string]interface \x7b\x7d"
  | .foreign f => f.typeName

mutual

/-- A value in messages: strings bare, items and fields with blanks between them. -/
def display : Value → String
  | .prim p => p.display
  | .string s => s
  | .list items => "[" ++ displayItems items ++ "]"
  | .object fields => "map[" ++ displayFields fields ++ "]"
  | .foreign f => f.display

def displayItems : List Value → String
  | [] => ""
  | [item] => item.display
  | item :: items => item.display ++ " " ++ displayItems items

def displayFields : List (String × Value) → String
  | [] => ""
  | [(key, value)] => key ++ ":" ++ value.display
  | (key, value) :: fields => key ++ ":" ++ value.display ++ " " ++ displayFields fields

end

mutual

/-- The JSON document of a value. -/
def toJson : Value → Json
  | .prim p => p.toJson
  | .string s => .string s
  | .list items => .array (toJsonItems items)
  | .object fields => .object (toJsonFields fields)
  | .foreign f => f.json

def toJsonItems : List Value → List Json
  | [] => []
  | item :: items => item.toJson :: toJsonItems items

def toJsonFields : List (String × Value) → List (String × Json)
  | [] => []
  | (key, value) :: fields => (key, value.toJson) :: toJsonFields fields

end

end Value

end StackIr

import StackIr.Reference.Origin
import StackIr.Substitution.Text
import StackIr.Template.Value

/-! # Expressions

    A template value in which every reference is resolved.  What is made of a value with fields
    in increasing order of their keys has its own in that order (`Expr.Ordered`). -/

namespace StackIr.Ir

open Substitution (Token)

/-- An expression. -/
inductive Expr where
  | string (s : String)
  | scalar (p : Primitive)
  | list (items : List Expr)
  /-- An object that is no function. -/
  | object (fields : List (String × Expr))
  /-- A substitution string with the variables that it binds itself. -/
  | sub (tokens : List (Token String)) (bound : List (String × Expr))
  | ref (name : String) (origin : Origin)
  | getAtt (resource attr : String)
  /-- Any other function, whose meaning is left open. -/
  | intrinsic (fn : String) (args : Expr)

/-- The fields of every object in an expression, and the variables that its substitution strings
    bind, are in increasing order of their keys. -/
inductive Expr.Ordered : Expr → Prop where
  | string (s : String) : Ordered (.string s)
  | scalar (p : Primitive) : Ordered (.scalar p)
  | list {items : List Expr} : (∀ item ∈ items, Ordered item) → Ordered (.list items)
  | object {fields : List (String × Expr)} : Fields.Increasing fields →
      (∀ field ∈ fields, Ordered field.2) → Ordered (.object fields)
  | sub (tokens : List (Token String)) {bound : List (String × Expr)} : Fields.Increasing bound →
      (∀ field ∈ bound, Ordered field.2) → Ordered (.sub tokens bound)
  | ref (name : String) (origin : Origin) : Ordered (.ref name origin)
  | getAtt (resource attr : String) : Ordered (.getAtt resource attr)
  | intrinsic (fn : String) {args : Expr} : Ordered args → Ordered (.intrinsic fn args)

namespace Expr

/-- The JSON document of a token. -/
def tokenJson : Token String → Json
  | .literal text => .object [("kind", .string "literal"), ("text", .string text)]
  | .var name => .object [("kind", .string "variable"), ("name", .string name)]

/-- The JSON document of a list of tokens; no tokens are null. -/
def tokensJson (tokens : List (Token String)) : Json :=
  if tokens.isEmpty then .null else .array (tokens.map tokenJson)

mutual

/-- The JSON document of an expression, which starts with its kind. -/
def toJson : Expr → Json
  | .string s => .object [("kind", .string "string"), ("value", .string s)]
  | .scalar p => .object [("kind", .string "scalar"), ("value", p.toJson)]
  | .list items => .object [("kind", .string "list"), ("items", .array (itemsJson items))]
  | .object fields => .object [("kind", .string "object"), ("fields", .object (fieldsJson fields))]
  | .sub tokens bound =>
    .object ([("kind", .string "sub"), ("tokens", tokensJson tokens)] ++
      match bound with
      | [] => []
      | b :: bs => [("variables", .array (boundJson (b :: bs)))])
  | .ref name origin =>
    .object [("kind", .string "ref"), ("name", .string name), ("origin", .string origin.name)]
  | .getAtt resource attr =>
    .object [("kind", .string "getAtt"), ("resource", .string resource),
      ("attribute", .string attr)]
  | .intrinsic fn args =>
    .object [("kind", .string "intrinsic"), ("function", .string fn), ("args", args.toJson)]

def itemsJson : List Expr → List Json
  | [] => []
  | e :: es => e.toJson :: itemsJson es

def fieldsJson : List (String × Expr) → List (String × Json)
  | [] => []
  | (key, e) :: rest => (key, e.toJson) :: fieldsJson rest

def boundJson : List (String × Expr) → List Json
  | [] => []
  | (name, e) :: rest =>
    .object [("name", .string name), ("value", e.toJson)] :: boundJson rest

end

/-- What an expression is refused for.  Every part of it is encoded on its own. -/
def refusal? (e : Expr) : Option Json.Refusal :=
  e.toJson.refusal?

/-- The compact JSON text of an expression. -/
def encode (e : Expr) : Except Json.Refusal String :=
  Json.textUnless e.refusal? (e.toJson.compact .safe)

/-- What an expression is, in a few words. -/
def kind : Expr → String
  | .string _ => "string"
  | .scalar _ => "scalar"
  | .list _ => "list"
  | .object _ => "object"
  | .sub _ _ => "Fn::Sub"
  | .ref name _ => "Ref " ++ name
  | .getAtt resource attr => "Fn::GetAtt " ++ resource ++ "." ++ attr
  | .intrinsic fn _ => fn

end Expr

end StackIr.Ir

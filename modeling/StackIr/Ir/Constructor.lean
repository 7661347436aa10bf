import StackIr.Template.Basic
import StackIr.Text.CamelCase
import StackIr.Text.LowerCase

/-! # Constructor parameters

    The inputs of the stack that is built from a template. -/

namespace StackIr.Ir

/-- An input of a stack. -/
structure ConstructorParameter where
  /-- Its identifier, in lower camel case. -/
  name : String
  /-- Its name in the template. -/
  logicalName : String
  description : String
  type : String
  default : Option String
  allowedValues : Option (List String)
  noEcho : Bool
  deriving DecidableEq, Repr

/-- Whether a string parameter may only be true or false, in any case. -/
def isBooleanChoice (p : Parameter) : Bool :=
  p.type = "String" &&
    match p.allowedValues with
    | some [a, b] =>
      let a := Text.lower a
      let b := Text.lower b
      (a = "true" && b = "false") || (a = "false" && b = "true")
    | _ => false

/-- The input of a parameter. -/
def deriveParameter (name : String) (p : Parameter) : ConstructorParameter where
  name := Text.lowerCamel name
  logicalName := name
  description := p.description
  type := if isBooleanChoice p then "Boolean" else p.type
  default := p.default
  allowedValues := p.allowedValues
  noEcho := p.noEcho

/-- The inputs of a section of parameters, in declaration order. -/
def deriveParameters : Section Parameter → Option (List ConstructorParameter)
  | none => none
  | some parameters => some (parameters.entries.map fun (name, p) => deriveParameter name p)

def ConstructorParameter.toJson (p : ConstructorParameter) : Json :=
  .object ([("name", .string p.name), ("logicalName", .string p.logicalName)] ++
    Json.textMember "description" p.description ++ [("type", .string p.type)] ++
    (match p.default with
      | some text => [("default", .string text)]
      | none => []) ++
    Json.textsMember "allowedValues" (p.allowedValues.getD []) ++
    (if p.noEcho then [("noEcho", .bool true)] else []))

end StackIr.Ir

import StackIr.Reference.Resolver
import StackIr.Substitution.Text

/-! # Faults of assembly

    What can be wrong with the types, references and dependencies of a template. -/

namespace StackIr.Ir

/-- An argument of a function that has the wrong form. -/
inductive Malformed where
  | refName (typeName : String)
  | attributeArgument (shown : String)
  | subCount (count : Nat)
  | subText (typeName : String)
  | subVariables (typeName : String)
  | subArgument (typeName : String)
  | unsupported (typeName : String)
  deriving DecidableEq, Repr

def Malformed.message : Malformed → String
  | .refName typeName => "Ref: expected a logical name, got " ++ typeName
  | .attributeArgument shown => "Fn::GetAtt: expected [Resource, Attribute], got " ++ shown
  | .subCount count =>
    "Fn::Sub: expected [String, \x7bVariables\x7d], got " ++ Nat.repr count ++ " arguments"
  | .subText typeName => "Fn::Sub: expected a string, got " ++ typeName
  | .subVariables typeName => "Fn::Sub: expected a variable map, got " ++ typeName
  | .subArgument typeName => "Fn::Sub: unsupported argument " ++ typeName
  | .unsupported typeName => "unsupported value of type " ++ typeName

/-- A fault of assembly. -/
inductive Fault where
  | noTemplate
  | noResolver
  | invalidType (type : String)
  | unresolved (use : Unresolved)
  | malformed (argument : Malformed)
  | unterminated (placeholder : Substitution.Unterminated)
  | unknownDependency (name : String)
  /-- A resource whose name another one has. -/
  | repeatedVertex
  /-- A dependency whose source is not among the resources. -/
  | missingVertex (name : String)
  /-- A dependency that would close a cycle: `dependent` depends on `dependency`. -/
  | cycle (dependency dependent : String)
  /-- Resources that cannot be ordered. -/
  | unordered
  deriving DecidableEq, Repr

def Fault.message : Fault → String
  | .noTemplate => "no template to assemble"
  | .noResolver => "no reference resolver configured"
  | .invalidType type =>
    "invalid resource type " ++ Text.quote type ++ ": expected Organization::Service[::Resource]"
  | .unresolved use => use.message
  | .malformed argument => argument.message
  | .unterminated placeholder => placeholder.message
  | .unknownDependency name => "DependsOn " ++ Text.quote name ++ " is not a resource"
  | .repeatedVertex => "vertex already exists"
  | .missingVertex name => "source vertex " ++ name ++ ": vertex not found"
  | .cycle dependency dependent =>
    "dependency cycle: " ++ dependent ++ " depends on " ++ dependency ++
      ", which already depends on it"
  | .unordered =>
    "could not order resources: topological sort cannot be computed on graph with cycles"

end StackIr.Ir

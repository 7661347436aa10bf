import StackIr.Text.Quoted

/-! # Faults of templates

    What can be wrong with a document that is to be a template. -/

namespace StackIr.Template

/-- What is wrong at a place of a template. -/
inductive Problem where
  | rootNotMapping
  | notMapping
  | notScalar
  | notList
  | itemNotScalar
  | noEchoNotBoolean (text : String)
  | propertiesNotMapping
  | unsupportedLeaf (tag : String)
  | attributeWithoutPoint (text : String)
  /-- A declaration without one of its members. -/
  | missingMember (kind name member : String)
  deriving DecidableEq, Repr

def Problem.message : Problem → String
  | .rootNotMapping => "template must be a mapping"
  | .notMapping => "expected a mapping"
  | .notScalar => "expected a scalar"
  | .notList => "expected a list"
  | .itemNotScalar => "expected a scalar list item"
  | .noEchoNotBoolean text => "NoEcho must be a boolean, got " ++ Text.quote text
  | .propertiesNotMapping => "Properties must be a mapping"
  | .unsupportedLeaf tag => "unsupported mapping value (tag " ++ tag ++ ")"
  | .attributeWithoutPoint text => "!GetAtt " ++ Text.quote text ++ " must be Resource.Attribute"
  | .missingMember kind name member => kind ++ " " ++ Text.quote name ++ " has no " ++ member

/-- A fault of a template. -/
inductive Fault where
  | empty
  | at (line : Nat) (problem : Problem)
  deriving DecidableEq, Repr

def Fault.message : Fault → String
  | .empty => "template is empty"
  | .at line problem => "line " ++ Nat.repr line ++ ": " ++ problem.message

end StackIr.Template

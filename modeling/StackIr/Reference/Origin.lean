import StackIr.Json.Basic

/-! # Where names come from -/

namespace StackIr

/-- The kind of declaration that a name has.  Numbers that stand for no kind are kept as
    numbers. -/
inductive Origin where
  | parameter
  | resource
  | pseudoParameter
  | condition
  | mapping
  | other (number : Int)
  deriving DecidableEq, Repr

namespace Origin

def ofNumber (n : Int) : Origin :=
  if n = 1 then .parameter
  else if n = 2 then .resource
  else if n = 3 then .pseudoParameter
  else if n = 4 then .condition
  else if n = 5 then .mapping
  else .other n

def number : Origin → Int
  | .parameter => 1
  | .resource => 2
  | .pseudoParameter => 3
  | .condition => 4
  | .mapping => 5
  | .other n => n

def name : Origin → String
  | .parameter => "Parameter"
  | .resource => "Resource"
  | .pseudoParameter => "PseudoParameter"
  | .condition => "Condition"
  | .mapping => "Mapping"
  | .other n => "Origin(" ++ String.ofList (Json.intText n) ++ ")"

/-- Whether a name of this origin has a value that can be referred to. -/
def isReferable : Origin → Bool
  | .parameter => true
  | .resource => true
  | .pseudoParameter => true
  | _ => false

end Origin

end StackIr

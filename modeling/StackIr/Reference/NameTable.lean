import StackIr.FiniteSet
import StackIr.Reference.Origin
import StackIr.Template.Basic

/-! # The names of a template

    An index of the names that a template declares.  It is filled section by section, and a
    name that is declared again takes its new origin.  Conditions are kept apart, so that a
    condition is still found if something else has its name. -/

namespace StackIr

/-- The names that every stack has. -/
def pseudoParameters : List String :=
  [ "AWS::AccountId", "AWS::NotificationARNs", "AWS::NoValue", "AWS::Partition",
    "AWS::Region", "AWS::StackId", "AWS::StackName", "AWS::URLSuffix" ]

/-- An index of declared names. -/
structure NameTable where
  /-- The origins of all names that are not only conditions. -/
  origins : OrderedMap Origin
  conditions : FiniteSet String

namespace NameTable

/-- Gives names an origin, whatever origins they had. -/
def declare (origins : OrderedMap Origin) (names : List String) (origin : Origin) :
    OrderedMap Origin :=
  names.foldl (fun m name => m.insert name origin) origins

/-- The names of a template, the strongest declarations last. -/
def ofTemplate (t : Template) : NameTable where
  origins :=
    let origins := declare .empty pseudoParameters .pseudoParameter
    let origins := declare origins (Section.names t.mappings) .mapping
    let origins := declare origins (Section.names t.parameters) .parameter
    declare origins (Section.names t.resources) .resource
  conditions := .ofList (Section.names t.conditions)

def isCondition (table : NameTable) (name : String) : Bool :=
  table.conditions.contains name

/-- Where a name comes from.  It is a condition only if it is nothing else. -/
def origin? (table : NameTable) (name : String) : Option Origin :=
  match table.origins.get? name with
  | some origin => some origin
  | none => if table.isCondition name then some .condition else none

end NameTable

end StackIr

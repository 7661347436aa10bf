import StackIr.Template.LookupTable
import StackIr.Template.Value

/-! # Templates

    The declarations of a stack, section by section, each in the order of the document.  A
    section that was never made is absent; one that was made may be empty. -/

namespace StackIr

/-- A declared parameter. -/
structure Parameter where
  type : String := ""
  description : String := ""
  /-- The default as it is written. -/
  default : Option String := none
  allowedValues : Option (List String) := none
  noEcho : Bool := false

/-- A declared resource. -/
structure Resource where
  type : String := ""
  properties : Option (List (String × Value)) := none
  dependsOn : Option (List String) := none
  condition : String := ""
  deletionPolicy : String := ""
  updateReplacePolicy : String := ""

/-- A declared output. -/
structure Output where
  value : Value := .null
  description : String := ""
  condition : String := ""
  /-- The name under which the output is exported, null when it is not. -/
  exportName : Value := .null

/-- A section of a template. -/
abbrev Section (α : Type) := Option (OrderedMap α)

/-- The entries of a section; an absent section has none. -/
def Section.entries {α : Type} (s : Section α) : List (String × α) :=
  (s.getD .empty).entries

/-- The names that a section declares, in order. -/
def Section.names {α : Type} (s : Section α) : List String :=
  Section.entries s |>.map Prod.fst

/-- The declarations of a stack. -/
structure Template where
  description : String := ""
  parameters : Section Parameter := none
  mappings : Section LookupTable := none
  conditions : Section Value := none
  resources : Section Resource := none
  outputs : Section Output := none

namespace Template

/-- A template in which every section is there and empty. -/
def blank : Template where
  parameters := some .empty
  mappings := some .empty
  conditions := some .empty
  resources := some .empty
  outputs := some .empty

/-- The type of every resource in order, repeated ones included. -/
def resourceTypes (t : Template) : List String :=
  (Section.entries t.resources).map fun (_, r) => r.type

end Template

end StackIr

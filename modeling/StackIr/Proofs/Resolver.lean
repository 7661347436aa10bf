import StackIr.Proofs.NameTable
import StackIr.Reference.Resolver

/-! # The names of a template

    Where the resolver of a template says a name comes from, there it is declared. -/

namespace StackIr

/-- A template declares a name as what an origin says. -/
def Template.DeclaresAs (t : Template) (name : String) : Origin → Prop
  | .parameter => name ∈ Section.names t.parameters
  | .resource => name ∈ Section.names t.resources
  | .pseudoParameter => name ∈ pseudoParameters
  | .condition => name ∈ Section.names t.conditions
  | .mapping => name ∈ Section.names t.mappings
  | .other _ => False

/-- A template declares a name nowhere, and the name is no pseudo parameter.  Outputs do not
    count: they declare nothing that a template can refer to. -/
def Template.Undeclared (t : Template) (name : String) : Prop :=
  ∀ origin, ¬ t.DeclaresAs name origin

theorem Template.undeclared_iff {t : Template} {name : String} :
    t.Undeclared name ↔
      name ∉ Section.names t.resources ∧ name ∉ Section.names t.parameters ∧
        name ∉ Section.names t.mappings ∧ name ∉ pseudoParameters ∧
        name ∉ Section.names t.conditions := by
  constructor
  · intro h
    exact ⟨h .resource, h .parameter, h .mapping, h .pseudoParameter, h .condition⟩
  · intro ⟨hresources, hparameters, hmappings, hpseudo, hconditions⟩ origin
    cases origin with
    | parameter => exact hparameters
    | resource => exact hresources
    | pseudoParameter => exact hpseudo
    | condition => exact hconditions
    | mapping => exact hmappings
    | other number => exact id

namespace Resolver

variable {t : Template} {name : String}

theorem origin?_ofTemplate :
    (ofTemplate t).origin? name = (NameTable.ofTemplate t).origin? name :=
  rfl

theorem declaresAs_of_origin? {origin : Origin} (h : (ofTemplate t).origin? name = some origin) :
    t.DeclaresAs name origin := by
  rw [origin?_ofTemplate, NameTable.origin?_ofTemplate] at h
  split_ifs at h with hresource hparameter hmapping hpseudo hcondition
  · cases h
    exact hresource
  · cases h
    exact hparameter
  · cases h
    exact hmapping
  · cases h
    exact hpseudo
  · cases h
    exact hcondition

/-- The names that a resolver does not know are those that are declared nowhere. -/
@[simp] theorem origin?_ofTemplate_eq_none_iff :
    (ofTemplate t).origin? name = none ↔ t.Undeclared name := by
  rw [Template.undeclared_iff, origin?_ofTemplate, NameTable.origin?_ofTemplate]
  grind

/-- A resource hides every other declaration of its name. -/
@[simp] theorem origin?_ofTemplate_eq_resource_iff :
    (ofTemplate t).origin? name = some .resource ↔ name ∈ Section.names t.resources := by
  constructor
  · intro h
    exact declaresAs_of_origin? h
  · intro hname
    rw [origin?_ofTemplate, NameTable.origin?_ofTemplate, if_pos hname]

@[simp] theorem isCondition_ofTemplate_iff :
    (ofTemplate t).isCondition name = true ↔ name ∈ Section.names t.conditions :=
  NameTable.isCondition_ofTemplate_iff

end Resolver

end StackIr

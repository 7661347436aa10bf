import StackIr.Ir.Resources
import StackIr.Proofs.Lowering.Checks
import StackIr.Proofs.OrderedMap
import StackIr.Proofs.References.Outcome

/-! # Instructions of resources

    The instruction of a resource carries the resource's own declarations.  There is one if
    the type names a service, the condition is declared and the references can be read; and
    the names that it depends on are those that the resource depends on. -/

namespace StackIr.Ir

variable {refs : Resolver}

/-! ## One instruction -/

/-- A resource type that names an organization and a service: it has a separator, and what
    stands before it and between it and the next one is not empty. -/
def NamesService (type : String) : Prop :=
  ∃ organization rest, Text.cut? TypeName.separator type = some (organization, rest) ∧
    organization ≠ "" ∧ (Text.cut TypeName.separator rest).1 ≠ ""

theorem exists_parse?_iff {type : String} :
    (∃ typeName, TypeName.parse? type = some typeName) ↔ NamesService type := by
  simp only [TypeName.parse?, NamesService, Option.bind_eq_bind, Option.bind_eq_some_iff, Prod.exists]
  constructor
  · intro ⟨typeName, organization, rest, hcut, h⟩
    split at h
    · cases h
    · rename_i hparts
      exact ⟨organization, rest, hcut, by simpa using hparts⟩
  · intro ⟨organization, rest, hcut, hparts⟩
    exact ⟨_, organization, rest, hcut, if_neg (by simpa using hparts)⟩

@[simp] theorem parse_eq_ok_iff {type : String} {typeName : TypeName} :
    TypeName.parse type = .ok typeName ↔ TypeName.parse? type = some typeName := by
  unfold TypeName.parse
  split
  · rename_i h
    simp [h]
  · rename_i h
    simp [h]

theorem parse_eq_error {type : String} {failure : Failure}
    (h : TypeName.parse type = .error failure) : failure = .assembly (.invalidType type) := by
  unfold TypeName.parse at h
  split at h
  · cases h
  · exact (Except.error.inj h).symm

/-- An instruction carries what its resource declares, and refers to what its properties
    refer to. -/
structure ResourceInstruction.Describes (refs : Resolver) (i : ResourceInstruction)
    (r : Resource) : Prop where
  type : TypeName.parse? r.type = some i.type
  condition : i.condition = r.condition
  dependsOn : i.dependsOn = r.dependsOn
  references : ∃ found, Ir.references refs (.object (r.properties.getD [])) = .ok found ∧
    i.references = Fields.sortedKeys found
  deletionPolicy : i.deletionPolicy = r.deletionPolicy
  updateReplacePolicy : i.updateReplacePolicy = r.updateReplacePolicy
  properties : i.properties = r.properties

theorem resourceInstruction_eq_ok_iff {name : String} {r : Resource} {i : ResourceInstruction} :
    resourceInstruction refs name r = .ok i ↔
      i.name = name ∧ i.Describes refs r ∧
        (r.condition = "" ∨ refs.isCondition r.condition = true) := by
  simp only [resourceInstruction, bind_eq_ok_iff, pure_eq_ok_iff, parse_eq_ok_iff]
  constructor
  · rintro ⟨typeName, htype, _, hcondition, found, hfound, rfl⟩
    exact ⟨rfl, ⟨htype, rfl, rfl, ⟨found, hfound, rfl⟩, rfl, rfl, rfl⟩,
      checkCondition_eq_ok_iff.1 hcondition⟩
  · rintro ⟨hname, hdescribes, hcondition⟩
    obtain ⟨found, hfound, hreferences⟩ := hdescribes.references
    refine ⟨i.type, hdescribes.type, (), checkCondition_eq_ok_iff.2 hcondition, found, hfound, ?_⟩
    rw [← hname, ← hdescribes.condition, ← hdescribes.dependsOn, ← hreferences,
      ← hdescribes.deletionPolicy, ← hdescribes.updateReplacePolicy, ← hdescribes.properties]

theorem cycle?_of_resourceInstruction {name : String} {r : Resource} {failure : Failure}
    (h : resourceInstruction refs name r = .error failure) : failure.cycle? = none := by
  -- the type, the condition and the references are checked in this order; none of them is a cycle
  unfold resourceInstruction at h
  rcases bind_eq_error_iff.1 h with h | ⟨_, _, h⟩
  · rw [parse_eq_error h]
    rfl
  rcases bind_eq_error_iff.1 h with h | ⟨_, _, h⟩
  · rw [checkCondition_eq_error h]
    rfl
  rcases bind_eq_error_iff.1 h with h | ⟨_, _, h⟩
  · exact cycle?_of_references h
  · cases h

/-! ## Dependencies -/

/-- A resource depends on a name that it declares or that its properties refer to. -/
def DependsOn (refs : Resolver) (r : Resource) (dependency : String) : Prop :=
  dependency ∈ r.dependsOn.getD [] ∨
    ∃ found, references refs (.object (r.properties.getD [])) = .ok found ∧ dependency ∈ found

theorem ResourceInstruction.Describes.mem_dependencies_iff {i : ResourceInstruction} {r : Resource}
    (h : i.Describes refs r) {dependency : String} :
    dependency ∈ i.dependencies ↔ DependsOn refs r dependency := by
  obtain ⟨found, hfound, hreferences⟩ := h.references
  rw [ResourceInstruction.dependencies, List.mem_append, h.dependsOn, hreferences,
    Fields.mem_sortedKeys, DependsOn]
  simp [hfound]

theorem checkDependsOn_eq_ok_iff {names dependencies : List String} :
    checkDependsOn names dependencies = .ok () ↔ ∀ dependency ∈ dependencies, dependency ∈ names := by
  induction dependencies with
  | nil => simp [checkDependsOn]
  | cons dependency rest ih =>
    rw [checkDependsOn, List.forall_mem_cons]
    split
    · rename_i hmem
      simp [hmem, ih]
    · rename_i hmem
      simp [hmem]

theorem cycle?_of_checkDependsOn {names dependencies : List String} {failure : Failure}
    (h : checkDependsOn names dependencies = .error failure) : failure.cycle? = none := by
  induction dependencies with
  | nil => cases h
  | cons dependency rest ih =>
    unfold checkDependsOn at h
    split at h
    · exact ih h
    · cases h
      rfl

end StackIr.Ir

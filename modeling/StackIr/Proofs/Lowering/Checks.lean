import StackIr.Ir.Lower
import StackIr.Proofs.Failure
import StackIr.Proofs.Text.Cut

/-! # Checks of names

    When each check of a name succeeds, in terms of what the resolver knows of it.  The
    variables of a substitution string are checked together: the check succeeds if every
    variable resolves. -/

namespace StackIr.Substitution

variable {name : String}

/-- A variable names an attribute of what stands before its first point, unless it is a pseudo
    parameter. -/
theorem attributeResource?_eq (name : String) :
    attributeResource? name =
      if Text.startsWith name "AWS::" then none else (Text.cut? "." name).map Prod.fst := by
  have hstart : isPseudo name = Text.startsWith name "AWS::" := rfl
  rw [attributeResource?, splitAttribute, hstart]
  cases Text.startsWith name "AWS::" with
  | true => rfl
  | false =>
    cases Text.cut? "." name with
    | none => rfl
    | some sides => rfl

theorem attributeResource?_eq_some_iff {resource : String} :
    attributeResource? name = some resource ↔
      Text.startsWith name "AWS::" = false ∧ ∃ attr, Text.cut? "." name = some (resource, attr) := by
  rw [attributeResource?_eq]
  cases Text.startsWith name "AWS::" <;> simp

theorem attributeResource?_eq_none_iff :
    attributeResource? name = none ↔
      Text.startsWith name "AWS::" = true ∨ Text.cut? "." name = none := by
  rw [attributeResource?_eq]
  cases Text.startsWith name "AWS::" <;> simp

/-- The same of the characters of the variable. -/
theorem attributeResource?_eq_some_iff_append {resource : String} :
    attributeResource? name = some resource ↔
      ¬ "AWS::".toList <+: name.toList ∧
        ∃ attr, name = resource ++ "." ++ attr ∧ '.' ∉ resource.toList := by
  simp only [attributeResource?_eq_some_iff, ← Bool.not_eq_true, Text.startsWith_iff,
    Text.cut?_eq_some_iff (show ".".toList = ['.'] from rfl)]

theorem attributeResource?_eq_none_iff_notMem :
    attributeResource? name = none ↔ "AWS::".toList <+: name.toList ∨ '.' ∉ name.toList := by
  rw [attributeResource?_eq_none_iff, Text.startsWith_iff,
    Text.cut?_eq_none_iff (c := '.') rfl]

end StackIr.Substitution

namespace StackIr.Ir

variable {refs : Resolver}

@[simp] theorem checkCondition_eq_ok_iff {name : String} :
    checkCondition refs name = .ok () ↔ name = "" ∨ refs.isCondition name = true := by
  unfold checkCondition
  split
  · rename_i h
    simpa using h
  · rename_i h
    simpa [unresolved] using h

theorem checkCondition_eq_error {name : String} {failure : Failure}
    (h : checkCondition refs name = .error failure) :
    failure = .assembly (.unresolved ⟨name, "Condition", refs.origin? name⟩) := by
  unfold checkCondition at h
  split at h
  · cases h
  · exact (Except.error.inj h).symm

@[simp] theorem checkResource_eq_ok_iff {name fn : String} :
    checkResource refs name fn = .ok () ↔ refs.origin? name = some .resource := by
  unfold checkResource
  split
  · rename_i h
    simp [h]
  · rename_i h
    simpa [unresolved] using h

theorem checkReferable_eq_ok_iff {name fn : String} {origin : Origin} :
    checkReferable refs name fn = .ok origin ↔
      refs.origin? name = some origin ∧ origin.isReferable = true := by
  unfold checkReferable
  split
  · rename_i found h
    rw [h]
    split
    · rename_i hreferable
      constructor
      · intro heq
        cases heq
        exact ⟨rfl, hreferable⟩
      · intro ⟨heq, _⟩
        cases heq
        rfl
    · rename_i hunreferable
      constructor
      · intro heq
        cases heq
      · intro ⟨heq, hreferable⟩
        cases heq
        exact absurd hreferable hunreferable
  · rename_i h
    simp [h, unresolved]

/-! ## Variables -/

/-- A variable of a substitution string that binds the names `bound` itself is one of them,
    or names an attribute of a resource, or something that can be referred to. -/
inductive VariableResolves (refs : Resolver) (bound : List String) (name : String) : Prop where
  | isBound (h : name ∈ bound)
  | attributeOf (resource : String) (h : Substitution.attributeResource? name = some resource)
      (horigin : refs.origin? resource = some .resource)
  | referable (origin : Origin) (h : Substitution.attributeResource? name = none)
      (horigin : refs.origin? name = some origin) (hreferable : origin.isReferable = true)

@[simp] theorem checkVariable_eq_ok_iff {bound : List String} {name : String} :
    checkVariable refs bound name = .ok () ↔ VariableResolves refs bound name := by
  unfold checkVariable
  split
  · rename_i hbound
    simpa using VariableResolves.isBound hbound
  · rename_i hbound
    split
    · rename_i resource hattribute
      rw [checkResource_eq_ok_iff]
      constructor
      · intro horigin
        exact .attributeOf resource hattribute horigin
      · -- the variable names an attribute, so of the three rules only one can have been used
        intro h
        cases h with
        | isBound h => exact absurd h hbound
        | attributeOf other h horigin =>
          rw [hattribute] at h
          cases h
          exact horigin
        | referable _ h =>
          rw [hattribute] at h
          cases h
    · rename_i hattribute
      rw [map_eq_ok_iff]
      constructor
      · intro ⟨origin, h, _⟩
        obtain ⟨horigin, hreferable⟩ := checkReferable_eq_ok_iff.1 h
        exact .referable origin hattribute horigin hreferable
      · -- the variable is neither bound nor an attribute
        intro h
        cases h with
        | isBound h => exact absurd h hbound
        | attributeOf _ h =>
          rw [hattribute] at h
          cases h
        | referable origin _ horigin hreferable =>
          exact ⟨origin, checkReferable_eq_ok_iff.2 ⟨horigin, hreferable⟩, rfl⟩

theorem checkVariables_eq_ok_iff {bound names : List String} :
    checkVariables refs bound names = .ok () ↔ ∀ name ∈ names, VariableResolves refs bound name := by
  induction names with
  | nil => simp [checkVariables]
  | cons name names ih =>
    rw [checkVariables, bind_eq_ok_iff, List.forall_mem_cons]
    constructor
    · intro ⟨_, hname, hnames⟩
      exact ⟨checkVariable_eq_ok_iff.1 hname, ih.1 hnames⟩
    · intro ⟨hname, hnames⟩
      exact ⟨(), checkVariable_eq_ok_iff.2 hname, ih.2 hnames⟩

end StackIr.Ir

import StackIr.Proofs.OrderedMap
import StackIr.Reference.NameTable

/-! # Which declaration of a name counts

    A name may be declared in any of the sections, and be a pseudo parameter as well.  The table
    of a template is filled section by section, each time over what was there, so the section
    that comes last hides the others: resources hide parameters, parameters hide mappings, and
    mappings hide pseudo parameters.  Conditions are not written over and are found last. -/

namespace StackIr

/-! ## Sets -/

namespace FiniteSet

variable {α : Type} [DecidableEq α] {a b : α}

@[simp] theorem mem_members_insert {s : FiniteSet α} :
    a ∈ (s.insert b).members ↔ a = b ∨ a ∈ s.members := by
  rw [insert]
  split
  · rename_i hmem
    constructor
    · intro h
      exact .inr h
    · rintro (rfl | h)
      · exact hmem
      · exact h
  · rw [List.mem_append, List.mem_singleton, or_comm]

@[simp] theorem mem_members_insertMany {s : FiniteSet α} {as : List α} :
    a ∈ (s.insertMany as).members ↔ a ∈ as ∨ a ∈ s.members := by
  rw [insertMany]
  induction as generalizing s with
  | nil => simp
  | cons b as ih =>
    rw [List.foldl_cons, ih, mem_members_insert, List.mem_cons]
    exact or_left_comm.trans or_assoc.symm

/-- The set of a list has its members and no others. -/
@[simp] theorem contains_ofList_iff {as : List α} : (ofList as).contains a = true ↔ a ∈ as := by
  rw [contains, decide_eq_true_iff, ofList, mem_members_insertMany]
  simp [empty]

end FiniteSet

/-! ## Sections -/

/-- What a section declares under a name.  An absent section declares nothing. -/
def Section.get? {α : Type} (s : Section α) (name : String) : Option α :=
  s.bind fun m => m.get? name

@[simp] theorem Section.isSome_get?_iff {α : Type} {s : Section α} {name : String} :
    (Section.get? s name).isSome = true ↔ name ∈ Section.names s := by
  cases s with
  | none => simp [Section.get?, Section.names, Section.entries, OrderedMap.empty]
  | some m => exact OrderedMap.contains_iff

/-! ## The table of a template -/

namespace NameTable

variable {t : Template} {name : String}

/-- The names that are declared take the new origin, and all others keep theirs. -/
theorem get?_declare (origins : OrderedMap Origin) (names : List String) (origin : Origin) :
    (declare origins names origin).get? name =
      if name ∈ names then some origin else origins.get? name := by
  rw [declare]
  induction names generalizing origins with
  | nil => simp
  | cons n names ih =>
    rw [List.foldl_cons, ih, OrderedMap.get?_insert]
    -- whether the name is declared again does not matter: it takes the same origin
    by_cases hrest : name ∈ names
    · rw [if_pos hrest, if_pos (List.mem_cons_of_mem n hrest)]
    · rw [if_neg hrest]
      by_cases hn : name = n
      · rw [if_pos hn, if_pos (hn ▸ List.mem_cons_self)]
      · rw [if_neg hn, if_neg (by simp [hn, hrest])]

@[simp] theorem isCondition_ofTemplate_iff :
    (ofTemplate t).isCondition name = true ↔ name ∈ Section.names t.conditions :=
  FiniteSet.contains_ofList_iff

theorem get?_origins_ofTemplate :
    (ofTemplate t).origins.get? name =
      if name ∈ Section.names t.resources then some .resource
      else if name ∈ Section.names t.parameters then some .parameter
      else if name ∈ Section.names t.mappings then some .mapping
      else if name ∈ pseudoParameters then some .pseudoParameter
      else none := by
  rw [ofTemplate, get?_declare, get?_declare, get?_declare, get?_declare]
  rfl

/-- A condition is found only where nothing else is. -/
theorem origin?_eq (table : NameTable) (name : String) :
    table.origin? name =
      (table.origins.get? name).or (if table.isCondition name then some .condition else none) := by
  rw [origin?]
  cases table.origins.get? name with
  | none => rfl
  | some origin => rfl

theorem origin?_ofTemplate :
    (ofTemplate t).origin? name =
      if name ∈ Section.names t.resources then some .resource
      else if name ∈ Section.names t.parameters then some .parameter
      else if name ∈ Section.names t.mappings then some .mapping
      else if name ∈ pseudoParameters then some .pseudoParameter
      else if name ∈ Section.names t.conditions then some .condition
      else none := by
  rw [origin?_eq, get?_origins_ofTemplate]
  simp only [isCondition_ofTemplate_iff]
  split_ifs <;> rfl

/-- For every template and name: the name comes from the resources if one of them has it, else
    from the parameters, else from the mappings, else it is a pseudo parameter, else a condition,
    else it is unknown.  It is a condition exactly if one of the conditions has it. -/
theorem origin?_ofTemplate_precedence (t : Template) (name : String) :
    (ofTemplate t).origin? name =
        (if (Section.get? t.resources name).isSome then some .resource
        else if (Section.get? t.parameters name).isSome then some .parameter
        else if (Section.get? t.mappings name).isSome then some .mapping
        else if name ∈ pseudoParameters then some .pseudoParameter
        else if (Section.get? t.conditions name).isSome then some .condition
        else none) ∧
      ((ofTemplate t).isCondition name = true ↔ (Section.get? t.conditions name).isSome) := by
  simp only [Section.isSome_get?_iff]
  exact ⟨origin?_ofTemplate, isCondition_ofTemplate_iff⟩

end NameTable

end StackIr

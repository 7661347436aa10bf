import StackIr.Ir.References
import StackIr.Proofs.Failure

/-! # What a search for references ends in

    A search for references either finds names, all of which are resources, or it fails; and
    it fails in one way only, at a substitution string with a placeholder that is never
    closed. -/

namespace StackIr.Ir

variable {refs : Resolver}

/-- The failure of a substitution string with a placeholder that is never closed. -/
def IsUnterminated (failure : Failure) : Prop :=
  ∃ placeholder, failure = .context "Fn::Sub" (.assembly (.unterminated placeholder))

/-- The outcome is a list of resources or an unclosed placeholder. -/
def FindsResources (refs : Resolver) : Except Failure (List String) → Prop
  | .ok found => ∀ name ∈ found, refs.origin? name = some .resource
  | .error failure => IsUnterminated failure

/-! ## Parts of a search -/

theorem origin?_of_mem_resourceName {name found : String} (h : found ∈ resourceName refs name) :
    found = name ∧ refs.origin? found = some .resource := by
  unfold resourceName at h
  split at h
  · rename_i horigin
    rw [List.mem_singleton] at h
    exact ⟨h, h ▸ horigin⟩
  · cases h

theorem findsResources_resourceName (name : String) :
    FindsResources refs (.ok (resourceName refs name)) :=
  fun _ hfound => (origin?_of_mem_resourceName hfound).2

theorem findsResources_nil : FindsResources refs (.ok []) := by
  intro name h
  cases h

theorem FindsResources.prepend {names : List String} {x : Except Failure (List String)}
    (hnames : FindsResources refs (.ok names)) (hx : FindsResources refs x) :
    FindsResources refs (x >>= fun more => pure (names ++ more)) := by
  cases x with
  | error failure => exact hx
  | ok more =>
    intro name hname
    rcases List.mem_append.1 hname with h | h
    · exact hnames name h
    · exact hx name h

theorem FindsResources.append {x y : Except Failure (List String)} (hx : FindsResources refs x)
    (hy : FindsResources refs y) :
    FindsResources refs (x >>= fun found => y >>= fun more => pure (found ++ more)) := by
  cases x with
  | error failure => exact hx
  | ok found => exact FindsResources.prepend hx hy

theorem findsResources_textReferences (text : String) (bound : List String) :
    FindsResources refs (textReferences refs text bound) := by
  rw [textReferences, tokensOf]
  -- nothing but the scan of the text can fail
  cases Substitution.scanString text with
  | error placeholder => exact ⟨placeholder, rfl⟩
  | ok tokens =>
    intro found hfound
    obtain ⟨name, -, hname⟩ := List.mem_flatMap.1 hfound
    rw [variableReferences] at hname
    split at hname
    · cases hname
    · exact (origin?_of_mem_resourceName hname).2

/-! ## The search -/

mutual

theorem findsResources_references (v : Value) : FindsResources refs (references refs v) := by
  match v with
  | .prim p =>
    unfold references
    exact findsResources_nil
  | .string s =>
    unfold references
    exact findsResources_nil
  | .foreign f =>
    unfold references
    exact findsResources_nil
  | .list items =>
    unfold references
    exact findsResources_referencesOfItems items
  | .object [] =>
    unfold references
    exact findsResources_referencesOfFields []
  | .object (first :: second :: rest) =>
    unfold references
    exact findsResources_referencesOfFields (first :: second :: rest)
  | .object [(key, arg)] =>
    rw [references.eq_def]
    dsimp only
    -- the three functions that are known, and any other key
    split
    · split
      · exact findsResources_resourceName _
      · exact findsResources_references arg
    split
    · split
      · exact findsResources_resourceName _
      · exact findsResources_nil
      · rename_i first rest
        refine FindsResources.prepend ?_ (findsResources_referencesOfItems rest)
        cases first.string? with
        | none => exact findsResources_nil
        | some name => exact findsResources_resourceName name
      · exact findsResources_references arg
    split
    · split
      · exact findsResources_textReferences _ _
      · exact findsResources_textReferences _ _
      · -- the variables are searched as an ordinary value, before the text
        rename_i first vars _
        exact (findsResources_references vars).append (findsResources_textReferences _ _)
      · exact findsResources_nil
    · exact findsResources_references arg

theorem findsResources_referencesOfItems (items : List Value) :
    FindsResources refs (referencesOfItems refs items) := by
  match items with
  | [] =>
    unfold referencesOfItems
    exact findsResources_nil
  | v :: rest =>
    unfold referencesOfItems
    exact (findsResources_references v).append (findsResources_referencesOfItems rest)

theorem findsResources_referencesOfFields (fields : List (String × Value)) :
    FindsResources refs (referencesOfFields refs fields) := by
  match fields with
  | [] =>
    unfold referencesOfFields
    exact findsResources_nil
  | (_, v) :: rest =>
    unfold referencesOfFields
    exact (findsResources_references v).append (findsResources_referencesOfFields rest)

end

/-! ## Consequences -/

theorem origin?_of_mem_references {v : Value} {found : List String} {name : String}
    (h : references refs v = .ok found) (hname : name ∈ found) :
    refs.origin? name = some .resource := by
  have hfinds : FindsResources refs (references refs v) := findsResources_references v
  rw [h] at hfinds
  exact hfinds name hname

theorem cycle?_of_references {v : Value} {failure : Failure}
    (h : references refs v = .error failure) : failure.cycle? = none := by
  have hfinds : FindsResources refs (references refs v) := findsResources_references v
  rw [h] at hfinds
  obtain ⟨placeholder, rfl⟩ := hfinds
  rw [Failure.cycle?_context]
  rfl

end StackIr.Ir

import StackIr.Ir.Mappings
import StackIr.Proofs.LookupTable

/-! # The classification of a lookup table

    A table is classified by a walk that takes the first leaf for an exemplar and ends at the
    first leaf of another kind.  Whatever steps made the table, the outcome depends only on which
    kinds the leaves have that it holds in the end: there is one kind, or there is not. -/

namespace StackIr

/-! ## The leaves that a table holds -/

namespace LookupTable

/-- A table has a leaf under some two keys. -/
def Holds (t : LookupTable) (leaf : Scalar) : Prop :=
  ∃ outer inner, t.get? outer inner = some leaf

theorem mem_leaves_iff {t : LookupTable} {outer inner : String} {leaf : Scalar} :
    (outer, inner, leaf) ∈ t.leaves ↔ t.get? outer inner = some leaf := by
  simp only [leaves, get?, List.mem_flatMap, List.mem_map, Prod.exists, Prod.mk.injEq,
    Option.bind_eq_some_iff, OrderedMap.get?_eq_some_iff]
  constructor
  · rintro ⟨o, row, hrow, i, v, hleaf, rfl, rfl, rfl⟩
    exact ⟨row, hrow, hleaf⟩
  · rintro ⟨row, hrow, hleaf⟩
    exact ⟨outer, row, hrow, inner, leaf, hleaf, rfl, rfl, rfl⟩

theorem mem_map_leaves_iff {t : LookupTable} {leaf : Scalar} :
    leaf ∈ t.leaves.map (fun (_, _, leaf) => leaf) ↔ t.Holds leaf := by
  simp only [List.mem_map, Prod.exists, mem_leaves_iff, exists_eq_right, Holds]

end LookupTable

namespace Ir

open LookupTable (Holds Step Visitor lastLeaf?)

/-! ## Kinds -/

/-- To compare all leaves with the first is to look for a second kind. -/
theorem classifyLeaves_eq_consistent_iff {leaves : List Scalar} {kind : ScalarKind} :
    classifyLeaves leaves = .consistent kind ↔ ∀ k, k ∈ leaves.map Scalar.kind ↔ k = kind := by
  cases leaves with
  | nil =>
    have hnone : ¬ ∀ k, k ∈ ([] : List Scalar).map Scalar.kind ↔ k = kind := fun h =>
      List.not_mem_nil ((h kind).2 rfl)
    simpa only [classifyLeaves, reduceCtorEq, false_iff] using hnone
  | cons first rest =>
    rw [classifyLeaves, List.map_cons]
    split
    · rename_i hall
      simp only [List.all_eq_true, decide_eq_true_eq] at hall
      rw [Classification.consistent.injEq]
      constructor
      · rintro rfl k
        simp only [List.mem_cons, List.mem_map]
        constructor
        · rintro (rfl | ⟨leaf, hleaf, rfl⟩)
          · rfl
          · exact hall leaf hleaf
        · exact .inl
      · intro h
        exact (h first.kind).1 (List.mem_cons_self ..)
    · rename_i hother
      simp only [reduceCtorEq, false_iff]
      intro h
      refine hother (List.all_eq_true.2 fun leaf hleaf => decide_eq_true ?_)
      have hfirst : first.kind = kind := (h first.kind).1 (List.mem_cons_self ..)
      have hkind := (h leaf.kind).1 (List.mem_cons_of_mem _ (List.mem_map_of_mem hleaf))
      exact hkind.trans hfirst.symm

/-- A classification is known from the kind that it is consistent with, if there is one. -/
theorem Classification.eq_of_forall_consistent_iff {c c' : Classification}
    (h : ∀ kind, c = .consistent kind ↔ c' = .consistent kind) : c = c' := by
  cases c with
  | consistent kind => exact ((h kind).1 rfl).symm
  | complex =>
    cases c' with
    | consistent kind => exact (h kind).2 rfl
    | complex => rfl

theorem Classification.eq_complex_iff {c : Classification} :
    c = .complex ↔ ¬ ∃ kind, c = .consistent kind := by
  cases c with
  | consistent kind => simp
  | complex => simp

/-- The kinds that the leaves of a table have. -/
def heldKinds (t : LookupTable) : Set ScalarKind :=
  { kind | ∃ leaf, t.Holds leaf ∧ leaf.kind = kind }

theorem classify_eq_consistent_iff {t : LookupTable} {kind : ScalarKind} :
    classify t = .consistent kind ↔ heldKinds t = {kind} := by
  rw [classify, classifyLeaves_eq_consistent_iff, Set.ext_iff]
  refine forall_congr' fun k => ?_
  rw [List.mem_map, Set.mem_singleton_iff, heldKinds, Set.mem_ofPred_eq]
  simp only [LookupTable.mem_map_leaves_iff]

theorem heldKinds_eq_singleton_iff {t : LookupTable} {kind : ScalarKind} :
    heldKinds t = {kind} ↔ (∃ leaf, t.Holds leaf) ∧ ∀ leaf, t.Holds leaf → leaf.kind = kind := by
  rw [Set.eq_singleton_iff_unique_mem]
  constructor
  · rintro ⟨⟨leaf, hleaf, -⟩, hall⟩
    exact ⟨⟨leaf, hleaf⟩, fun other hother => hall other.kind ⟨other, hother, rfl⟩⟩
  · rintro ⟨⟨leaf, hleaf⟩, hall⟩
    refine ⟨⟨leaf, hleaf, hall leaf hleaf⟩, ?_⟩
    rintro k ⟨other, hother, rfl⟩
    exact hall other hother

/-! ## The walk -/

/-- What is done at every leaf: the first one becomes the exemplar, and one of another kind ends
    the walk. -/
def compareKinds : Visitor Unit (Option Scalar) := fun _ _ leaf exemplar =>
  match exemplar with
  | none => (.ok (), some leaf)
  | some first => (if leaf.kind = first.kind then .ok () else .error (), some first)

/-- The classification that a walk comes to. -/
def verdict : Except Unit Unit × Option Scalar → Classification
  | (.ok (), some first) => .consistent first.kind
  | _ => .complex

theorem verdict_visitAll (first : Scalar) (leaves : List LookupTable.Visit) :
    verdict (compareKinds.visitAll leaves (some first)) =
      if leaves.all (fun leaf => leaf.2.2.kind = first.kind) then .consistent first.kind
      else .complex := by
  induction leaves with
  | nil => rfl
  | cons leaf rest ih =>
    rw [LookupTable.visitAll_cons, List.all_cons]
    by_cases hkind : leaf.2.2.kind = first.kind
    · have hvisit : compareKinds.visitAt leaf (some first) = (.ok (), some first) := by
        simp [Visitor.visitAt, compareKinds, hkind]
      rw [hvisit, decide_eq_true hkind, Bool.true_and]
      exact ih
    · have hvisit : compareKinds.visitAt leaf (some first) = (.error (), some first) := by
        simp [Visitor.visitAt, compareKinds, hkind]
      rw [hvisit, decide_eq_false hkind, Bool.false_and]
      rfl

/-- A table is classified by one walk, which ends early where the leaves are of several kinds. -/
theorem verdict_walk (t : LookupTable) : verdict (t.walk compareKinds none) = classify t := by
  rw [LookupTable.walk_eq]
  show verdict (compareKinds.visitAll t.leaves none) = classifyLeaves _
  cases t.leaves with
  | nil => rfl
  | cons leaf rest =>
    have hfirst : compareKinds.visitAt leaf none = (.ok (), some leaf.2.2) := rfl
    rw [LookupTable.visitAll_cons, hfirst, List.map_cons, classifyLeaves, List.all_map]
    exact verdict_visitAll leaf.2.2 rest

/-! ## Any history -/

theorem holds_run_iff {start : LookupTable} (hstart : start = .empty ∨ start = .untouched)
    {steps : List Step} {leaf : Scalar} :
    (start.run steps).Holds leaf ↔ ∃ outer inner, lastLeaf? steps outer inner = some leaf := by
  simp only [Holds, (LookupTable.recalls_run hstart).get?]

/-- After any steps a table is consistent with a kind exactly if it holds a leaf and all leaves
    that it holds have this kind, and it is complex otherwise.  The leaves it holds are those set
    last under their keys, so neither keys without leaves nor leaves that were replaced count;
    and two tables whose leaves have the same kinds are classified alike, whatever the steps that
    made them.  The classification is what one walk over the table finds. -/
theorem classify_run {start : LookupTable} (hstart : start = .empty ∨ start = .untouched)
    (steps : List Step) :
    let t := start.run steps
    (∀ kind, classify t = .consistent kind ↔
      (∃ leaf, t.Holds leaf) ∧ ∀ leaf, t.Holds leaf → leaf.kind = kind) ∧
    (classify t = .complex ↔
      ¬ ∃ kind, (∃ leaf, t.Holds leaf) ∧ ∀ leaf, t.Holds leaf → leaf.kind = kind) ∧
    (∀ leaf, t.Holds leaf ↔ ∃ outer inner, lastLeaf? steps outer inner = some leaf) ∧
    (∀ (start' : LookupTable) (steps' : List Step), start' = .empty ∨ start' = .untouched →
      heldKinds (start'.run steps') = heldKinds t → classify (start'.run steps') = classify t) ∧
    classify t = verdict (t.walk compareKinds none) := by
  intro t
  have hconsistent : ∀ kind, classify t = .consistent kind ↔
      (∃ leaf, t.Holds leaf) ∧ ∀ leaf, t.Holds leaf → leaf.kind = kind := fun kind =>
    classify_eq_consistent_iff.trans heldKinds_eq_singleton_iff
  refine ⟨hconsistent, ?_, fun leaf => holds_run_iff hstart, fun start' steps' _ hkinds => ?_,
    (verdict_walk t).symm⟩
  · rw [Classification.eq_complex_iff]
    exact not_congr (exists_congr hconsistent)
  · apply Classification.eq_of_forall_consistent_iff
    intro kind
    rw [classify_eq_consistent_iff, classify_eq_consistent_iff, hkinds]

/-- A leaf of another kind that was replaced, an outer key without leaves and the order of the
    steps make no difference; a leaf of another kind that stays does. -/
theorem classify_run_limits :
    let steps : List Step := [.set "east" "a" (.string "one"), .addOuter "north",
      .set "west" "b" (.int 2), .set "east" "a" (.int 1)]
    let steps' : List Step := [.set "north" "c" (.int 7)]
    classify (LookupTable.untouched.run steps) = .consistent .int ∧
      classify (LookupTable.empty.run steps') = classify (LookupTable.untouched.run steps) ∧
      classify (LookupTable.untouched.run (steps.take 3)) = .complex := by
  intro steps steps'
  have hint : classify (LookupTable.untouched.run steps) = .consistent .int := by decide
  have hint' : classify (LookupTable.empty.run steps') = .consistent .int := by decide
  obtain ⟨-, -, -, hcongr, -⟩ := classify_run (.inr rfl) steps
  obtain ⟨-, hcomplex, -⟩ := classify_run (.inr rfl) (steps.take 3)
  refine ⟨hint, hcongr .empty steps' (.inl rfl) ?_, hcomplex.2 ?_⟩
  · rw [classify_eq_consistent_iff.1 hint, classify_eq_consistent_iff.1 hint']
  · rintro ⟨kind, -, hall⟩
    have hstring := hall (.string "one") ⟨"east", "a", rfl⟩
    have hint := hall (.int 2) ⟨"west", "b", rfl⟩
    cases hstring.trans hint.symm

end Ir

end StackIr

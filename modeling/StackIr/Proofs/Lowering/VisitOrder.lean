import StackIr.Ir.References
import StackIr.Proofs.Failure
import StackIr.Proofs.OrderedMap
import StackIr.Proofs.References.Agreement

/-! # The order in which fields are visited

    The fields of an object have no order of their own.  Values keep them in increasing order of
    their keys, but nothing rests on it: when the fields of a value are visited in another order,
    the same resources are found, and the expression is the same once its fields are sorted. -/

namespace StackIr

/-! ## Sorted values and expressions -/

namespace Value

mutual

/-- The value with the fields of its objects in increasing order of their keys. -/
def sorted : Value → Value
  | .prim p => .prim p
  | .string s => .string s
  | .list items => .list (sortedItems items)
  | .object fields => .object (Fields.ofList (sortedFields fields))
  | .foreign f => .foreign f

def sortedItems : List Value → List Value
  | [] => []
  | v :: vs => v.sorted :: sortedItems vs

def sortedFields : List (String × Value) → List (String × Value)
  | [] => []
  | (key, v) :: rest => (key, v.sorted) :: sortedFields rest

end

mutual

/-- No object has a key twice. -/
def DistinctKeys : Value → Prop
  | .prim _ => True
  | .string _ => True
  | .list items => DistinctKeysInItems items
  | .object fields => (fields.map Prod.fst).Nodup ∧ DistinctKeysInFields fields
  | .foreign _ => True

def DistinctKeysInItems : List Value → Prop
  | [] => True
  | v :: vs => v.DistinctKeys ∧ DistinctKeysInItems vs

def DistinctKeysInFields : List (String × Value) → Prop
  | [] => True
  | (_, v) :: rest => v.DistinctKeys ∧ DistinctKeysInFields rest

end

@[simp] theorem map_fst_sortedFields (fields : List (String × Value)) :
    (sortedFields fields).map Prod.fst = fields.map Prod.fst := by
  induction fields with
  | nil => rfl
  | cons field rest ih =>
    obtain ⟨key, v⟩ := field
    rw [sortedFields, List.map_cons, List.map_cons, ih]

theorem ofList_sortedFields_perm {fields : List (String × Value)}
    (h : (fields.map Prod.fst).Nodup) :
    (Fields.ofList (sortedFields fields)).Perm (sortedFields fields) := by
  rw [← map_fst_sortedFields] at h
  exact Fields.ofList_perm h

theorem length_ofList_sortedFields {fields : List (String × Value)}
    (h : (fields.map Prod.fst).Nodup) :
    (Fields.ofList (sortedFields fields)).length = fields.length := by
  rw [(ofList_sortedFields_perm h).length_eq, ← List.length_map Prod.fst, map_fst_sortedFields,
    List.length_map]

@[simp] theorem sorted_singleton (key : String) (arg : Value) :
    (object [(key, arg)]).sorted = .object [(key, arg.sorted)] := by
  rw [sorted, sortedFields, sortedFields]
  rfl

@[simp] theorem string?_sorted (v : Value) : v.sorted.string? = v.string? := by
  cases v with
  | prim p => rw [sorted]
  | string s => rw [sorted]
  | list items => rw [sorted]; rfl
  | object fields => rw [sorted]; rfl
  | foreign f => rw [sorted]

theorem eq_string_of_sorted {v : Value} {s : String} (h : v.sorted = .string s) :
    v = .string s := by
  cases v with
  | string t => simpa only [sorted] using h
  | _ => simp only [sorted, reduceCtorEq] at h

theorem exists_object_of_sorted {v : Value} {fields : List (String × Value)}
    (h : v.sorted = .object fields) : ∃ fields', v = .object fields' := by
  cases v with
  | object fields' => exact ⟨fields', rfl⟩
  | _ => simp only [sorted, reduceCtorEq] at h

theorem exists_list_of_sorted {v first second : Value} (h : v.sorted = .list [first, second]) :
    ∃ first' second', v = .list [first', second'] ∧ first'.sorted = first ∧
      second'.sorted = second := by
  match v with
  | .list [first', second'] =>
    simp only [sorted, sortedItems, list.injEq, List.cons.injEq, and_true] at h
    exact ⟨first', second', rfl, h.1, h.2⟩
  | .list [] => simp [sorted, sortedItems] at h
  | .list [_] => simp [sorted, sortedItems] at h
  | .list (_ :: _ :: _ :: _) => simp [sorted, sortedItems] at h
  | .prim _ | .string _ | .object _ | .foreign _ => simp only [sorted, reduceCtorEq] at h

theorem distinctKeysInItems {items : List Value} (h : ∀ item ∈ items, item.DistinctKeys) :
    DistinctKeysInItems items := by
  induction items with
  | nil => trivial
  | cons v vs ih =>
    obtain ⟨hv, hvs⟩ := List.forall_mem_cons.1 h
    exact ⟨hv, ih hvs⟩

theorem distinctKeysInFields {fields : List (String × Value)}
    (h : ∀ field ∈ fields, field.2.DistinctKeys) : DistinctKeysInFields fields := by
  induction fields with
  | nil => trivial
  | cons field rest ih =>
    obtain ⟨hfield, hrest⟩ := List.forall_mem_cons.1 h
    exact ⟨hfield, ih hrest⟩

/-- In increasing order no key is there twice. -/
theorem Ordered.distinctKeys {v : Value} (h : v.Ordered) : v.DistinctKeys := by
  induction h with
  | prim p => trivial
  | string s => trivial
  | list _ ih => exact distinctKeysInItems ih
  | object hincreasing _ ih => exact ⟨hincreasing.nodup, distinctKeysInFields ih⟩
  | foreign f => trivial

theorem sortedItems_eq_self {items : List Value} (h : ∀ item ∈ items, item.sorted = item) :
    sortedItems items = items := by
  induction items with
  | nil => rfl
  | cons v vs ih =>
    obtain ⟨hv, hvs⟩ := List.forall_mem_cons.1 h
    rw [sortedItems, hv, ih hvs]

theorem sortedFields_eq_self {fields : List (String × Value)}
    (h : ∀ field ∈ fields, field.2.sorted = field.2) : sortedFields fields = fields := by
  induction fields with
  | nil => rfl
  | cons field rest ih =>
    obtain ⟨hfield, hrest⟩ := List.forall_mem_cons.1 h
    rw [sortedFields, hfield, ih hrest]

theorem Ordered.sorted_eq {v : Value} (h : v.Ordered) : v.sorted = v := by
  induction h with
  | prim p => rw [sorted]
  | string s => rw [sorted]
  | list _ ih => rw [sorted, sortedItems_eq_self ih]
  | object hincreasing _ ih => rw [sorted, sortedFields_eq_self ih, hincreasing.ofList_eq]
  | foreign f => rw [sorted]

theorem ordered_ofPairs {pairs : List (String × Value)} (h : ∀ pair ∈ pairs, pair.2.Ordered) :
    (ofPairs pairs).Ordered :=
  .object (Fields.increasing_ofList pairs) fun _ hmem => h _ (Fields.mem_of_mem_ofList hmem)

end Value

namespace Ir

namespace Expr

mutual

/-- The expression with its fields, and the variables that its substitution strings bind, in
    increasing order of their keys. -/
def sorted : Expr → Expr
  | .string s => .string s
  | .scalar p => .scalar p
  | .list items => .list (sortedItems items)
  | .object fields => .object (Fields.ofList (sortedFields fields))
  | .sub tokens bound => .sub tokens (Fields.ofList (sortedFields bound))
  | .ref name origin => .ref name origin
  | .getAtt resource attr => .getAtt resource attr
  | .intrinsic fn args => .intrinsic fn args.sorted

def sortedItems : List Expr → List Expr
  | [] => []
  | e :: es => e.sorted :: sortedItems es

def sortedFields : List (String × Expr) → List (String × Expr)
  | [] => []
  | (key, e) :: rest => (key, e.sorted) :: sortedFields rest

end

@[simp] theorem map_fst_sortedFields (fields : List (String × Expr)) :
    (sortedFields fields).map Prod.fst = fields.map Prod.fst := by
  induction fields with
  | nil => rfl
  | cons field rest ih =>
    obtain ⟨key, e⟩ := field
    rw [sortedFields, List.map_cons, List.map_cons, ih]

mutual

theorem ordered_sorted (e : Expr) : e.sorted.Ordered := by
  rw [sorted.eq_def]
  match e with
  | .string s => exact .string s
  | .scalar p => exact .scalar p
  | .list items => exact .list (ordered_sortedItems items)
  | .object fields =>
    exact .object (Fields.increasing_ofList _) fun field hmem =>
      ordered_sortedFields fields field (Fields.mem_of_mem_ofList hmem)
  | .sub tokens bound =>
    exact .sub tokens (Fields.increasing_ofList _) fun field hmem =>
      ordered_sortedFields bound field (Fields.mem_of_mem_ofList hmem)
  | .ref name origin => exact .ref name origin
  | .getAtt resource attr => exact .getAtt resource attr
  | .intrinsic fn args => exact .intrinsic fn args.ordered_sorted

theorem ordered_sortedItems (items : List Expr) : ∀ item ∈ sortedItems items, item.Ordered := by
  match items with
  | [] => exact List.forall_mem_nil _
  | e :: es => exact List.forall_mem_cons.2 ⟨e.ordered_sorted, ordered_sortedItems es⟩

theorem ordered_sortedFields (fields : List (String × Expr)) :
    ∀ field ∈ sortedFields fields, field.2.Ordered := by
  match fields with
  | [] => exact List.forall_mem_nil _
  | (key, e) :: rest => exact List.forall_mem_cons.2 ⟨e.ordered_sorted, ordered_sortedFields rest⟩

end

end Expr

open Value (sortedItems sortedFields DistinctKeysInItems DistinctKeysInFields)

variable {refs : Resolver}

/-! ## References -/

/-- The same names are found, or both searches fail. -/
abbrev SameFound : Except Failure (List String) → Except Failure (List String) → Prop :=
  SameOutcome fun found found' => ∀ name, name ∈ found ↔ name ∈ found'

theorem SameFound.refl (x : Except Failure (List String)) : SameFound x x :=
  (SameOutcome.refl x).imp fun _ _ _ _ heq name => by rw [heq]

theorem SameFound.append {x x' y y' : Except Failure (List String)} (hx : SameFound x x')
    (hy : SameFound y y') :
    SameFound (do let found ← x; let more ← y; pure (found ++ more))
      (do let found ← x'; let more ← y'; pure (found ++ more)) := by
  refine hx.bind fun found found' hfound => hy.bind fun more more' hmore => .ok fun name => ?_
  rw [List.mem_append, List.mem_append, hfound, hmore]

/-- Which variables are bound matters, but not in which order. -/
theorem textReferences_congr (text : String) {bound bound' : List String}
    (h : ∀ name, name ∈ bound ↔ name ∈ bound') :
    textReferences refs text bound = textReferences refs text bound' := by
  have hvariable : variableReferences refs bound = variableReferences refs bound' := by
    funext name
    simp only [variableReferences, h]
  rw [textReferences, textReferences, hvariable]

theorem mem_boundNames_sorted (vars : Value) (name : String) :
    name ∈ boundNames vars ↔ name ∈ boundNames vars.sorted := by
  cases vars with
  | object fields =>
    rw [Value.sorted, boundNames, boundNames, Fields.mem_map_fst_ofList,
      Value.map_fst_sortedFields]
  | _ => simp [Value.sorted, boundNames]

theorem referencesOfFields_eq_mapM (fields : List (String × Value)) :
    referencesOfFields refs fields =
      (fields.mapM fun field => references refs field.2).map List.flatten := by
  induction fields with
  | nil => rfl
  | cons field rest ih =>
    obtain ⟨key, v⟩ := field
    rw [referencesOfFields, List.mapM_cons, ih]
    cases references refs v with
    | error failure => rfl
    | ok found =>
      cases rest.mapM fun field => references refs field.2 with
      | error failure => rfl
      | ok more => rfl

theorem sameFound_referencesOfFields_perm {fields fields' : List (String × Value)}
    (hperm : fields.Perm fields') :
    SameFound (referencesOfFields refs fields) (referencesOfFields refs fields') := by
  rw [referencesOfFields_eq_mapM, referencesOfFields_eq_mapM]
  -- the fields in another order give the same lists of names in another order
  refine (SameOutcome.mapM_perm _ hperm).map fun found found' hfound name => ?_
  exact hfound.flatten.mem_iff

/-- An object that has not exactly one field is searched field by field. -/
theorem references_object_of_length {fields : List (String × Value)} (h : fields.length ≠ 1) :
    references refs (.object fields) = referencesOfFields refs fields := by
  match fields with
  | [] => rw [references.eq_def]
  | [field] => exact absurd rfl h
  | first :: second :: rest => rw [references.eq_def]

theorem references_ref_of_string?_eq_none {arg : Value} (h : arg.string? = none) :
    references refs (.object [("Ref", arg)]) = references refs arg := by
  rw [references.eq_def]
  dsimp only
  rw [if_pos rfl]
  cases arg with
  | string name => cases h
  | _ => rfl

/-! A call is searched with its argument, or in a way of its own if the argument has the form of
    the function. -/

section calls

variable {arg : Value} (h : SameFound (references refs arg) (references refs arg.sorted))
include h

theorem sameFound_ref : SameFound (references refs (.object [("Ref", arg)]))
    (references refs (.object [("Ref", arg.sorted)])) := by
  cases arg with
  | string name =>
    rw [Value.sorted]
    exact .refl _
  | _ =>
    rw [references_ref_of_string?_eq_none rfl,
      references_ref_of_string?_eq_none (Value.string?_sorted _)]
    exact h

theorem sameFound_getAtt
    (hitems : ∀ first rest, arg = .list (first :: rest) →
      SameFound (referencesOfItems refs rest) (referencesOfItems refs (sortedItems rest))) :
    SameFound (references refs (.object [("Fn::GetAtt", arg)]))
      (references refs (.object [("Fn::GetAtt", arg.sorted)])) := by
  cases arg with
  | string s =>
    rw [Value.sorted]
    exact .refl _
  | list items =>
    cases items with
    | nil =>
      rw [Value.sorted, Value.sortedItems]
      exact .refl _
    | cons first rest =>
      -- the argument is a list either way; its first item is read as a string, which sorting keeps
      simp only [Value.sorted, Value.sortedItems, references, String.reduceEq, ↓reduceIte,
        Value.string?_sorted]
      refine (hitems first rest rfl).bind fun more more' hmore => .ok fun name => ?_
      rw [List.mem_append, List.mem_append, hmore]
  | _ =>
    simp only [Value.sorted, references, String.reduceEq, ↓reduceIte] at h ⊢
    exact h

end calls

theorem sameFound_sub {arg : Value}
    (hvars : ∀ first vars more, arg = .list (first :: vars :: more) →
      SameFound (references refs vars) (references refs vars.sorted)) :
    SameFound (references refs (.object [("Fn::Sub", arg)]))
      (references refs (.object [("Fn::Sub", arg.sorted)])) := by
  match arg with
  | .list [] =>
    rw [Value.sorted, Value.sortedItems]
    exact .refl _
  | .list [first] =>
    simp only [Value.sorted, Value.sortedItems, references, String.reduceEq, ↓reduceIte,
      Value.string?_sorted]
    exact .refl _
  | .list (first :: vars :: more) =>
    simp only [Value.sorted, Value.sortedItems, references, String.reduceEq, ↓reduceIte,
      Value.string?_sorted]
    rw [← textReferences_congr _ (mem_boundNames_sorted vars)]
    exact (hvars first vars more rfl).append (.refl _)
  | .prim _ | .string _ | .object _ | .foreign _ =>
    simp only [Value.sorted, references, String.reduceEq, ↓reduceIte]
    exact .refl _

mutual

/-- The same resources are found in whatever order fields are visited. -/
theorem sameFound_references (v : Value) (h : v.DistinctKeys) :
    SameFound (references refs v) (references refs v.sorted) := by
  match v with
  | .prim p =>
    rw [Value.sorted]
    exact .ok fun _ => .rfl
  | .string s =>
    rw [Value.sorted]
    exact .ok fun _ => .rfl
  | .foreign f =>
    rw [Value.sorted]
    exact .ok fun _ => .rfl
  | .list items =>
    rw [Value.sorted, references, references]
    rw [Value.DistinctKeys] at h
    exact sameFound_referencesOfItems items h
  | .object [] =>
    rw [Value.sorted]
    exact .ok fun _ => .rfl
  | .object (first :: second :: rest) =>
    rw [Value.DistinctKeys] at h
    -- sorting keeps the number of fields, so neither object is taken for a call
    have hperm := Value.ofList_sortedFields_perm h.1
    have hlength := Value.length_ofList_sortedFields h.1
    rw [Value.sorted, references_object_of_length (by simp),
      references_object_of_length (by simp [hlength])]
    exact (sameFound_referencesOfFields (first :: second :: rest) h.2).trans
      (sameFound_referencesOfFields_perm hperm.symm) fun _ _ _ hone htwo name =>
        (hone name).trans (htwo name)
  | .object [(key, arg)] =>
    have harg : arg.DistinctKeys := by simpa [Value.DistinctKeys, DistinctKeysInFields] using h
    have hsearch := sameFound_references arg harg
    rw [Value.sorted_singleton]
    by_cases href : key = "Ref"
    · exact href ▸ sameFound_ref hsearch
    by_cases hgetAtt : key = "Fn::GetAtt"
    · subst hgetAtt
      refine sameFound_getAtt hsearch ?_
      rintro first rest rfl
      simp only [Value.DistinctKeys, DistinctKeysInItems] at harg
      exact sameFound_referencesOfItems rest harg.2
    by_cases hsub : key = "Fn::Sub"
    · subst hsub
      refine sameFound_sub ?_
      rintro first vars more rfl
      simp only [Value.DistinctKeys, DistinctKeysInItems] at harg
      exact sameFound_references vars harg.2.1
    rw [references_singleton ⟨href, hgetAtt, hsub⟩, references_singleton ⟨href, hgetAtt, hsub⟩]
    exact hsearch

theorem sameFound_referencesOfItems (items : List Value) (h : DistinctKeysInItems items) :
    SameFound (referencesOfItems refs items) (referencesOfItems refs (sortedItems items)) := by
  match items with
  | [] =>
    rw [Value.sortedItems]
    exact .ok fun _ => .rfl
  | v :: vs =>
    rw [DistinctKeysInItems] at h
    rw [Value.sortedItems, referencesOfItems, referencesOfItems]
    exact (sameFound_references v h.1).append (sameFound_referencesOfItems vs h.2)

theorem sameFound_referencesOfFields (fields : List (String × Value))
    (h : DistinctKeysInFields fields) :
    SameFound (referencesOfFields refs fields) (referencesOfFields refs (sortedFields fields)) := by
  match fields with
  | [] =>
    rw [Value.sortedFields]
    exact .ok fun _ => .rfl
  | (key, v) :: rest =>
    rw [DistinctKeysInFields] at h
    rw [Value.sortedFields, referencesOfFields, referencesOfFields]
    exact (sameFound_references v h.1).append (sameFound_referencesOfFields rest h.2)

end

/-! ## Lowering -/

/-- The second expression is the first one sorted, or both computations fail. -/
abbrev SortsTo : Except Failure Expr → Except Failure Expr → Prop :=
  SameOutcome fun e e' => e.sorted = e'

/-- The same for fields, in the order in which they are visited. -/
abbrev FieldsSortTo : Except Failure (List (String × Expr)) →
    Except Failure (List (String × Expr)) → Prop :=
  SameOutcome fun es es' => Fields.ofList (Expr.sortedFields es) = es'

theorem checkVariables_congr {bound bound' : List String}
    (h : ∀ name, name ∈ bound ↔ name ∈ bound') (names : List String) :
    checkVariables refs bound names = checkVariables refs bound' names := by
  have hvariable : checkVariable refs bound = checkVariable refs bound' := by
    funext name
    simp only [checkVariable, h]
  induction names with
  | nil => rfl
  | cons name names ih => rw [checkVariables, checkVariables, hvariable, ih]

theorem lowerFields_eq_mapM (fields : List (String × Value)) :
    lowerFields refs fields =
      fields.mapM fun field => (noting field.1 (lower refs field.2)).map (field.1, ·) := by
  induction fields with
  | nil => rfl
  | cons field rest ih =>
    obtain ⟨key, v⟩ := field
    rw [lowerFields, List.mapM_cons, ih]
    cases noting key (lower refs v) with
    | error failure => rfl
    | ok e => rfl

/-- Variables that a string binds are lowered like fields, with other notes. -/
theorem sameOutcome_lowerBound (vars : List (String × Value)) :
    SameOutcome Eq (lowerBound refs vars) (lowerFields refs vars) := by
  induction vars with
  | nil => exact .refl _
  | cons var rest ih =>
    obtain ⟨name, v⟩ := var
    rw [lowerBound, lowerFields]
    refine ((SameOutcome.refl (lower refs v)).noting _ _).bind fun e e' he => ?_
    refine ih.bind fun es es' hes => ?_
    rw [he, hes]
    exact .refl _

/-- Sorting before fields are visited, or after. -/
theorem sameOutcome_mapM_ofList {α β : Type} (f : String × α → Except Failure β)
    {pairs : List (String × α)} (hdistinct : (pairs.map Prod.fst).Nodup) :
    SameOutcome (fun results results' => Fields.ofList results = results')
      (pairs.mapM fun pair => (f pair).map (pair.1, ·))
      ((Fields.ofList pairs).mapM fun pair => (f pair).map (pair.1, ·)) := by
  -- the results are those of the same fields in another order, so both lists have the same entries
  refine (SameOutcome.mapM_perm _ (Fields.ofList_perm hdistinct).symm).imp
    fun results results' hresults hresults' hperm => ?_
  have hkeys : results.map Prod.fst = pairs.map Prod.fst := map_fst_of_mapM hresults
  have hkeys' : results'.map Prod.fst = (Fields.ofList pairs).map Prod.fst :=
    map_fst_of_mapM hresults'
  have hincreasing : Fields.Increasing results' := by
    rw [Fields.Increasing, hkeys']
    exact Fields.increasing_ofList pairs
  exact (Fields.increasing_ofList results).eq_of_perm hincreasing
    ((Fields.ofList_perm (hkeys ▸ hdistinct)).trans hperm)

theorem mem_map_fst_sortedFields (es : List (String × Expr)) (name : String) :
    name ∈ es.map Prod.fst ↔ name ∈ (Fields.ofList (Expr.sortedFields es)).map Prod.fst := by
  rw [Fields.mem_map_fst_ofList, Expr.map_fst_sortedFields]

theorem sortsTo_lowerRef (args : Value) :
    SortsTo (lowerRef refs args) (lowerRef refs args.sorted) := by
  cases args with
  | string name =>
    rw [Value.sorted]
    exact (SameOutcome.refl _).map fun _ _ horigin => by rw [horigin, Expr.sorted]
  | _ =>
    rw [Value.sorted]
    exact .error

@[simp] theorem attributeParts_sorted (args : Value) :
    attributeParts args.sorted = attributeParts args := by
  match args with
  | .list [resource, attr] =>
    simp only [Value.sorted, Value.sortedItems, attributeParts, Value.string?_sorted]
  | .list [] => simp only [Value.sorted, Value.sortedItems]
  | .list [_] => simp only [Value.sorted, Value.sortedItems, attributeParts]
  | .list (_ :: _ :: _ :: _) => simp only [Value.sorted, Value.sortedItems, attributeParts]
  | .prim _ | .string _ | .object _ | .foreign _ => simp only [Value.sorted, attributeParts]

theorem sortsTo_lowerGetAtt (args : Value) :
    SortsTo (lowerGetAtt refs args) (lowerGetAtt refs args.sorted) := by
  unfold lowerGetAtt
  rw [attributeParts_sorted]
  dsimp only
  split
  · exact .error
  · exact (SameOutcome.refl _).map fun _ _ _ => by rw [Expr.sorted]

theorem sortsTo_lowerSub (text : String) {bound bound' : Except Failure (List (String × Expr))}
    (h : FieldsSortTo bound bound') :
    SortsTo (lowerSub refs text bound) (lowerSub refs text bound') := by
  unfold lowerSub
  refine (SameOutcome.refl _).bind fun tokens tokens' htokens => ?_
  refine h.bind fun es es' hes => ?_
  subst htokens hes
  rw [← checkVariables_congr (mem_map_fst_sortedFields es)]
  exact (SameOutcome.refl _).bind fun _ _ _ => .ok (by rw [Expr.sorted])

theorem sortsTo_sub {args : Value}
    (hvars : ∀ text vars, args = .list [.string text, .object vars] →
      FieldsSortTo (lowerFields refs vars) (lowerFields refs (Fields.ofList (sortedFields vars)))) :
    SortsTo (lower refs (.object [("Fn::Sub", args)]))
      (lower refs (.object [("Fn::Sub", args.sorted)])) := by
  rw [lower.eq_def, lower.eq_def refs (.object [("Fn::Sub", args.sorted)])]
  simp only [String.reduceEq, ↓reduceIte]
  split
  · rename_i text
    rw [Value.sorted]
    exact sortsTo_lowerSub text (.ok rfl)
  · rename_i text vars
    simp only [Value.sorted, Value.sortedItems]
    -- variables are lowered like fields; fields can be sorted; and back to variables
    have hbound := (sameOutcome_lowerBound vars).trans (hvars text vars rfl)
      fun _ _ _ heq hsorted => heq ▸ hsorted
    exact sortsTo_lowerSub text (hbound.trans (sameOutcome_lowerBound _).symm
      fun _ _ _ hsorted heq => heq ▸ hsorted)
  · -- what is not of the form of an argument is not sorted into it
    rename_i htext hbound
    split
    · rename_i text heq
      exact absurd (Value.eq_string_of_sorted heq) (htext text)
    · rename_i text vars heq
      obtain ⟨first, second, rfl, hfirst, hsecond⟩ := Value.exists_list_of_sorted heq
      obtain ⟨vars', rfl⟩ := Value.exists_object_of_sorted hsecond
      rw [Value.eq_string_of_sorted hfirst] at hbound
      exact absurd rfl (hbound text vars')
    · exact .error

/-- An object that has not exactly one field is lowered field by field. -/
theorem lower_object_of_length {fields : List (String × Value)} (h : fields.length ≠ 1) :
    lower refs (.object fields) = (lowerFields refs fields).map .object := by
  match fields with
  | [] => rw [lower.eq_def]
  | [field] => exact absurd rfl h
  | first :: second :: rest => rw [lower.eq_def]

theorem fieldsSortTo_lowerFields {fields : List (String × Value)}
    (hdistinct : (fields.map Prod.fst).Nodup)
    (h : SameOutcome (fun es es' => Expr.sortedFields es = es') (lowerFields refs fields)
      (lowerFields refs (sortedFields fields))) :
    FieldsSortTo (lowerFields refs fields)
      (lowerFields refs (Fields.ofList (sortedFields fields))) := by
  rw [← Value.map_fst_sortedFields] at hdistinct
  have hsorted := sameOutcome_mapM_ofList
    (fun field => noting field.1 (lower refs field.2)) hdistinct
  rw [← lowerFields_eq_mapM, ← lowerFields_eq_mapM] at hsorted
  exact h.trans hsorted fun _ _ _ hes hsorted => hes ▸ hsorted

mutual

/-- In whatever order fields are visited, the expression is the same once it is sorted. -/
theorem sortsTo_lower (v : Value) (h : v.DistinctKeys) :
    SortsTo (lower refs v) (lower refs v.sorted) := by
  match v with
  | .prim p =>
    rw [Value.sorted]
    exact .ok (by rw [Expr.sorted])
  | .string s =>
    rw [Value.sorted]
    exact .ok (by rw [Expr.sorted])
  | .foreign f =>
    rw [Value.sorted]
    exact .error
  | .list items =>
    rw [Value.DistinctKeys] at h
    rw [Value.sorted, lower, lower]
    exact (sameOutcome_lowerItems items h 0).map fun _ _ hes => by rw [Expr.sorted, hes]
  | .object [] =>
    rw [Value.sorted]
    exact .ok (by rw [Expr.sorted]; rfl)
  | .object (first :: second :: rest) =>
    rw [Value.DistinctKeys] at h
    have hlength := Value.length_ofList_sortedFields h.1
    rw [Value.sorted, lower_object_of_length (by simp), lower_object_of_length (by simp [hlength])]
    exact (fieldsSortTo_lowerFields h.1 (sameOutcome_lowerFields (first :: second :: rest) h.2)).map
      fun _ _ hes => by rw [Expr.sorted, hes]
  | .object [(fn, args)] =>
    have hargs : args.DistinctKeys := by simpa [Value.DistinctKeys, DistinctKeysInFields] using h
    have hlowered := sortsTo_lower args hargs
    rw [Value.sorted_singleton]
    by_cases hsub : fn = "Fn::Sub"
    · subst hsub
      refine sortsTo_sub ?_
      rintro text vars rfl
      simp only [Value.DistinctKeys, DistinctKeysInItems] at hargs
      exact fieldsSortTo_lowerFields hargs.2.1.1 (sameOutcome_lowerFields vars hargs.2.1.2)
    rw [lower.eq_def, lower.eq_def refs (.object [(fn, args.sorted)])]
    dsimp only
    -- the check of a condition sees the same name
    rw [if_neg hsub, if_neg hsub, Value.string?_sorted]
    split
    · exact sortsTo_lowerRef args
    split
    · exact sortsTo_lowerGetAtt args
    split
    · split
      · refine (SameOutcome.refl _).bind fun _ _ _ => ?_
        exact (hlowered.noting _ _).map fun _ _ he => by rw [Expr.sorted, he]
      · exact (hlowered.noting _ _).map fun _ _ he => by rw [Expr.sorted, he]
    · exact (hlowered.noting _ _).map fun _ _ he => by
        rw [Expr.sorted, Expr.sortedFields, Expr.sortedFields, he]
        rfl

theorem sameOutcome_lowerItems (items : List Value) (h : DistinctKeysInItems items)
    (position : Nat) :
    SameOutcome (fun es es' => Expr.sortedItems es = es') (lowerItems refs position items)
      (lowerItems refs position (sortedItems items)) := by
  match items with
  | [] =>
    rw [Value.sortedItems]
    exact .ok (by rw [Expr.sortedItems])
  | v :: vs =>
    rw [DistinctKeysInItems] at h
    rw [Value.sortedItems, lowerItems, lowerItems]
    refine ((sortsTo_lower v h.1).noting _ _).bind fun e e' he => ?_
    refine (sameOutcome_lowerItems vs h.2 (position + 1)).bind fun es es' hes => ?_
    exact .ok (by rw [Expr.sortedItems, he, hes])

theorem sameOutcome_lowerFields (fields : List (String × Value))
    (h : DistinctKeysInFields fields) :
    SameOutcome (fun es es' => Expr.sortedFields es = es') (lowerFields refs fields)
      (lowerFields refs (sortedFields fields)) := by
  match fields with
  | [] =>
    rw [Value.sortedFields]
    exact .ok (by rw [Expr.sortedFields])
  | (key, v) :: rest =>
    rw [DistinctKeysInFields] at h
    rw [Value.sortedFields, lowerFields, lowerFields]
    refine ((sortsTo_lower v h.1).noting _ _).bind fun e e' he => ?_
    refine (sameOutcome_lowerFields rest h.2).bind fun es es' hes => ?_
    exact .ok (by rw [Expr.sortedFields, he, hes])

end

/-- What is made of a value with its fields in order has its fields in order. -/
theorem ordered_of_lower {v : Value} {e : Expr} (h : v.Ordered) (he : lower refs v = .ok e) :
    e.Ordered := by
  have hsorts : SortsTo (lower refs v) (lower refs v.sorted) := sortsTo_lower v h.distinctKeys
  rw [h.sorted_eq, he] at hsorts
  cases hsorts with
  | ok heq =>
    rw [← heq]
    exact e.ordered_sorted

end Ir

end StackIr

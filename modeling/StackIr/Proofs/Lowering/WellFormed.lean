import StackIr.Proofs.Lowering.Judgment

/-! # Values that can be lowered

    Which values have an expression, said without expressions.  A value is well-formed if its
    parts are, and if each function in it has an argument of its form that refers to names of
    the right origin.  Lowering accepts the well-formed values and no others. -/

namespace StackIr.Ir

variable {refs : Resolver}

/-! ## Names -/

/-- A name that has a value: a parameter, a resource or a pseudo parameter. -/
def Referable (refs : Resolver) (name : String) : Prop :=
  ∃ origin ∈ [Origin.parameter, .resource, .pseudoParameter], refs.origin? name = some origin

theorem referable_iff {name : String} :
    Referable refs name ↔
      ∃ origin, refs.origin? name = some origin ∧ origin.isReferable = true := by
  -- the list and the test of an origin agree on every origin
  have hmem : ∀ origin : Origin,
      origin ∈ [Origin.parameter, .resource, .pseudoParameter] ↔ origin.isReferable = true := by
    intro origin
    cases origin with
    | parameter => simp [Origin.isReferable]
    | resource => simp [Origin.isReferable]
    | pseudoParameter => simp [Origin.isReferable]
    | condition => simp [Origin.isReferable]
    | mapping => simp [Origin.isReferable]
    | other number => simp [Origin.isReferable]
  simp only [Referable, hmem, and_comm]

/-- A variable that a substitution string with the given keys may have. -/
inductive VariableWellFormed (refs : Resolver) (keys : List String) (name : String) : Prop
  /-- The string gives it a value itself. -/
  | key (h : name ∈ keys)
  /-- It is an attribute of the resource before its first point. -/
  | ofResource (resource attr : String) (hstart : ¬ "AWS::".toList <+: name.toList)
      (hname : name = resource ++ "." ++ attr) (hpoint : '.' ∉ resource.toList)
      (horigin : refs.origin? resource = some .resource)
  /-- It is a pseudo parameter or has no point, and has a value. -/
  | whole (hname : "AWS::".toList <+: name.toList ∨ '.' ∉ name.toList) (h : Referable refs name)

theorem variableWellFormed_iff {keys : List String} {name : String} :
    VariableWellFormed refs keys name ↔ VariableResolves refs keys name := by
  constructor
  · intro h
    cases h with
    | key h => exact .isBound h
    | ofResource resource attr hstart hname hresource horigin =>
      have hattribute := Substitution.attributeResource?_eq_some_iff_append.2
        ⟨hstart, attr, hname, hresource⟩
      exact .attributeOf resource hattribute horigin
    | whole hname h =>
      obtain ⟨origin, horigin, hreferable⟩ := referable_iff.1 h
      have hattribute := Substitution.attributeResource?_eq_none_iff_notMem.2 hname
      exact .referable origin hattribute horigin hreferable
  · intro h
    cases h with
    | isBound h => exact .key h
    | attributeOf resource hattribute horigin =>
      obtain ⟨hstart, attr, hname, hresource⟩ :=
        Substitution.attributeResource?_eq_some_iff_append.1 hattribute
      exact .ofResource resource attr hstart hname hresource horigin
    | referable origin hattribute horigin hreferable =>
      have hname := Substitution.attributeResource?_eq_none_iff_notMem.1 hattribute
      exact .whole hname (referable_iff.2 ⟨origin, horigin, hreferable⟩)

/-! ## Functions -/

/-- A key that makes an object with no other key a function. -/
def FunctionKey (key : String) : Prop :=
  key = "Ref" ∨ key = "Condition" ∨ "Fn::".toList <+: key.toList

theorem isIntrinsic_iff {key : String} : isIntrinsic key = true ↔ FunctionKey key := by
  simp only [isIntrinsic, FunctionKey, Bool.or_eq_true, decide_eq_true_eq, Text.startsWith_iff, or_assoc]

/-- The two ways to write an attribute of a resource. -/
inductive WritesAttribute (resource attr : String) : Value → Prop
  | text (hpoint : '.' ∉ resource.toList) :
      WritesAttribute resource attr (.string (resource ++ "." ++ attr))
  | pair : WritesAttribute resource attr (.list [.string resource, .string attr])

theorem attributeParts_eq_iff {args : Value} {resource attr : String} (hresource : resource ≠ "")
    (hattr : attr ≠ "") :
    attributeParts args = (resource, attr) ↔ WritesAttribute resource attr args := by
  have hpoint : ".".toList = ['.'] := rfl
  constructor
  · intro h
    unfold attributeParts at h
    split at h
    · obtain ⟨rfl, hbefore⟩ := (Text.cut_eq_iff hpoint hattr).1 h
      exact .text hbefore
    · obtain ⟨hfirst, hsecond⟩ := Prod.mk.inj h
      rw [eq_string_of_getD hfirst hresource, eq_string_of_getD hsecond hattr]
      exact .pair
    · exact absurd (Prod.mk.inj h).1.symm hresource
  · intro h
    cases h with
    | text hbefore => exact (Text.cut_eq_iff hpoint hattr).2 ⟨rfl, hbefore⟩
    | pair => rfl

/-! ## Values -/

/-- A value that can be lowered. -/
inductive WellFormed (refs : Resolver) : Value → Prop
  | prim (p : Primitive) : WellFormed refs (.prim p)
  | string (s : String) : WellFormed refs (.string s)
  | list {items : List Value} (h : ∀ item ∈ items, WellFormed refs item) :
      WellFormed refs (.list items)
  | object {fields : List (String × Value)}
      (hdata : ∀ key arg, fields = [(key, arg)] → ¬ FunctionKey key)
      (h : ∀ field ∈ fields, WellFormed refs field.2) : WellFormed refs (.object fields)
  | ref {name : String} (h : Referable refs name) :
      WellFormed refs (.object [("Ref", .string name)])
  | getAtt {args : Value} {resource attr : String} (hargs : WritesAttribute resource attr args)
      (hresource : resource ≠ "") (hattr : attr ≠ "")
      (horigin : refs.origin? resource = some .resource) :
      WellFormed refs (.object [("Fn::GetAtt", args)])
  | subText {text : String} {tokens : List (Substitution.Token String)}
      (htokens : Substitution.scanString text = .ok tokens)
      (hvariables : ∀ name ∈ Substitution.variableNames tokens, VariableWellFormed refs [] name) :
      WellFormed refs (.object [("Fn::Sub", .string text)])
  | subBound {text : String} {vars : List (String × Value)}
      {tokens : List (Substitution.Token String)}
      (htokens : Substitution.scanString text = .ok tokens)
      (h : ∀ var ∈ vars, WellFormed refs var.2)
      (hvariables : ∀ name ∈ Substitution.variableNames tokens,
        VariableWellFormed refs (vars.map Prod.fst) name) :
      WellFormed refs (.object [("Fn::Sub", .list [.string text, .object vars])])
  /-- An argument that is a string is the name of a condition, or empty. -/
  | condition {args : Value}
      (hname : ∀ name, args = .string name → name = "" ∨ refs.isCondition name = true)
      (h : WellFormed refs args) : WellFormed refs (.object [("Condition", args)])
  | function {key : String} {args : Value} (hkey : "Fn::".toList <+: key.toList)
      (hother : key ≠ "Fn::GetAtt" ∧ key ≠ "Fn::Sub") (h : WellFormed refs args) :
      WellFormed refs (.object [(key, args)])

/-! ### What is lowered is well-formed -/

theorem tokensOf_eq_ok_iff {text : String} {tokens : List (Substitution.Token String)} :
    tokensOf text = .ok tokens ↔ Substitution.scanString text = .ok tokens :=
  mapError_eq_ok_iff

theorem checkCondition_string?_eq_ok_iff {args : Value} :
    checkCondition refs (args.string?.getD "") = .ok () ↔
      ∀ name, args = .string name → name = "" ∨ refs.isCondition name = true := by
  rw [checkCondition_eq_ok_iff]
  cases args with
  | string name => simp [Value.string?]
  | prim p => simp [Value.string?]
  | list items => simp [Value.string?]
  | object fields => simp [Value.string?]
  | foreign f => simp [Value.string?]

mutual

theorem Lowers.wellFormed {v : Value} {e : Expr} (h : Lowers refs v e) : WellFormed refs v := by
  match h with
  | .string s => exact .string s
  | .scalar p => exact .prim p
  | .list hitems => exact .list hitems.wellFormed
  | .object hdata hfields =>
    refine .object ?_ hfields.wellFormed
    intro key arg hfields' hkey
    have hdata' := hdata key arg hfields'
    rw [isIntrinsic_iff.2 hkey] at hdata'
    cases hdata'
  | .ref horigin hreferable => exact .ref (referable_iff.2 ⟨_, horigin, hreferable⟩)
  | .getAtt hparts hresource hattr horigin =>
    exact .getAtt ((attributeParts_eq_iff hresource hattr).1 hparts) hresource hattr horigin
  | .subText htokens hvariables =>
    refine .subText (tokensOf_eq_ok_iff.1 htokens) ?_
    exact fun name hname => variableWellFormed_iff.2 (hvariables name hname)
  | .subBound htokens hbound hvariables =>
    refine .subBound (tokensOf_eq_ok_iff.1 htokens) hbound.wellFormed ?_
    -- the values of the map become expressions under the same keys
    rw [hbound.map_fst] at hvariables
    exact fun name hname => variableWellFormed_iff.2 (hvariables name hname)
  | @Lowers.intrinsic _ fn args e hfn hother hcondition hargs =>
    by_cases heq : fn = "Condition"
    · subst heq
      exact .condition (checkCondition_string?_eq_ok_iff.1 (hcondition rfl)) hargs.wellFormed
    · -- a function that is neither a reference nor a condition
      have hkey : "Fn::".toList <+: fn.toList :=
        ((isIntrinsic_iff.1 hfn).resolve_left hother.1).resolve_left heq
      exact .function hkey hother.2 hargs.wellFormed

theorem LowersItems.wellFormed {items : List Value} {es : List Expr}
    (h : LowersItems refs items es) : ∀ item ∈ items, WellFormed refs item := by
  match h with
  | .nil => simp
  | .cons hv hs => exact List.forall_mem_cons.2 ⟨hv.wellFormed, hs.wellFormed⟩

theorem LowersFields.wellFormed {fields : List (String × Value)} {es : List (String × Expr)}
    (h : LowersFields refs fields es) : ∀ field ∈ fields, WellFormed refs field.2 := by
  match h with
  | .nil => simp
  | .cons hv hs => exact List.forall_mem_cons.2 ⟨hv.wellFormed, hs.wellFormed⟩

end

/-! ### What is well-formed is lowered -/

theorem exists_lowersItems {items : List Value} (h : ∀ item ∈ items, ∃ e, Lowers refs item e) :
    ∃ es, LowersItems refs items es := by
  induction items with
  | nil => exact ⟨[], .nil⟩
  | cons item items ih =>
    obtain ⟨⟨e, he⟩, hrest⟩ := List.forall_mem_cons.1 h
    obtain ⟨es, hes⟩ := ih hrest
    exact ⟨e :: es, .cons he hes⟩

theorem exists_lowersFields {fields : List (String × Value)}
    (h : ∀ field ∈ fields, ∃ e, Lowers refs field.2 e) : ∃ es, LowersFields refs fields es := by
  induction fields with
  | nil => exact ⟨[], .nil⟩
  | cons field fields ih =>
    obtain ⟨⟨e, he⟩, hrest⟩ := List.forall_mem_cons.1 h
    obtain ⟨es, hes⟩ := ih hrest
    exact ⟨(field.1, e) :: es, .cons he hes⟩

theorem WellFormed.exists_lowers {v : Value} (h : WellFormed refs v) : ∃ e, Lowers refs v e := by
  induction h with
  | prim p => exact ⟨_, .scalar p⟩
  | string s => exact ⟨_, .string s⟩
  | list _ ih =>
    obtain ⟨es, hes⟩ := exists_lowersItems ih
    exact ⟨_, .list hes⟩
  | object hdata _ ih =>
    obtain ⟨es, hes⟩ := exists_lowersFields ih
    refine ⟨_, .object ?_ hes⟩
    intro key arg hfields
    rw [← Bool.not_eq_true, isIntrinsic_iff]
    exact hdata key arg hfields
  | ref h =>
    obtain ⟨origin, horigin, hreferable⟩ := referable_iff.1 h
    exact ⟨_, .ref horigin hreferable⟩
  | getAtt hargs hresource hattr horigin =>
    have hparts := (attributeParts_eq_iff hresource hattr).2 hargs
    exact ⟨_, .getAtt hparts hresource hattr horigin⟩
  | subText htokens hvariables =>
    refine ⟨_, .subText (tokensOf_eq_ok_iff.2 htokens) ?_⟩
    exact fun name hname => variableWellFormed_iff.1 (hvariables name hname)
  | subBound htokens _ hvariables ih =>
    obtain ⟨es, hes⟩ := exists_lowersFields ih
    refine ⟨_, .subBound (tokensOf_eq_ok_iff.2 htokens) hes ?_⟩
    rw [hes.map_fst]
    exact fun name hname => variableWellFormed_iff.1 (hvariables name hname)
  | condition hname _ ih =>
    obtain ⟨e, he⟩ := ih
    refine ⟨_, .intrinsic (by decide) (by decide) ?_ he⟩
    exact fun _ => checkCondition_string?_eq_ok_iff.2 hname
  | @function key args hkey hother _ ih =>
    obtain ⟨e, he⟩ := ih
    have hfn : isIntrinsic key = true := isIntrinsic_iff.2 (Or.inr (Or.inr hkey))
    have hne : key ≠ "Ref" ∧ key ≠ "Condition" := by
      constructor
      · rintro rfl
        exact absurd hkey (by decide)
      · rintro rfl
        exact absurd hkey (by decide)
    exact ⟨_, .intrinsic hfn ⟨hne.1, hother⟩ (fun heq => absurd heq hne.2) he⟩

/-- Lowering accepts exactly the well-formed values. -/
theorem exists_lower_iff_wellFormed (refs : Resolver) (v : Value) :
    (∃ e, lower refs v = .ok e) ↔ WellFormed refs v := by
  constructor
  · intro ⟨e, h⟩
    exact (lower_eq_ok_iff.1 h).wellFormed
  · intro h
    obtain ⟨e, he⟩ := h.exists_lowers
    exact ⟨e, lower_eq_ok_iff.2 he⟩

end StackIr.Ir

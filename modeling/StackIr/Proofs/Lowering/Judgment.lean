import StackIr.Proofs.Lowering.Checks

/-! # What lowering does

    `Lowers` is the relation between a value and its expression, with one rule for each form
    that a value can have.  Whatever `lower` returns is related to its argument, so a
    statement about lowering is proved rule by rule and never opens `lower`. -/

namespace StackIr.Ir

variable {refs : Resolver}

/-- An object that is no function: it does not have exactly one field, or the key of that
    field is not that of a function. -/
def IsData (fields : List (String × Value)) : Prop :=
  ∀ fn arg, fields = [(fn, arg)] → isIntrinsic fn = false

theorem IsData.ne_of_singleton {fn : String} {arg : Value} (h : IsData [(fn, arg)]) :
    fn ≠ "Ref" ∧ fn ≠ "Fn::GetAtt" ∧ fn ≠ "Fn::Sub" := by
  have hfn : isIntrinsic fn = false := h fn arg rfl
  refine ⟨?_, ?_, ?_⟩
  · rintro rfl
    cases hfn
  · rintro rfl
    cases hfn
  · rintro rfl
    cases hfn

mutual

/-- A value and its expression. -/
inductive Lowers (refs : Resolver) : Value → Expr → Prop
  | string (s : String) : Lowers refs (.string s) (.string s)
  | scalar (p : Primitive) : Lowers refs (.prim p) (.scalar p)
  | list {items : List Value} {es : List Expr} (h : LowersItems refs items es) :
      Lowers refs (.list items) (.list es)
  | object {fields : List (String × Value)} {es : List (String × Expr)} (hdata : IsData fields)
      (h : LowersFields refs fields es) : Lowers refs (.object fields) (.object es)
  | ref {name : String} {origin : Origin} (horigin : refs.origin? name = some origin)
      (hreferable : origin.isReferable = true) :
      Lowers refs (.object [("Ref", .string name)]) (.ref name origin)
  | getAtt {args : Value} {resource attr : String} (hparts : attributeParts args = (resource, attr))
      (hresource : resource ≠ "") (hattr : attr ≠ "")
      (horigin : refs.origin? resource = some .resource) :
      Lowers refs (.object [("Fn::GetAtt", args)]) (.getAtt resource attr)
  | subText {text : String} {tokens : List (Substitution.Token String)}
      (htokens : tokensOf text = .ok tokens)
      (hvariables : ∀ name ∈ Substitution.variableNames tokens, VariableResolves refs [] name) :
      Lowers refs (.object [("Fn::Sub", .string text)]) (.sub tokens [])
  | subBound {text : String} {vars : List (String × Value)}
      {tokens : List (Substitution.Token String)} {bound : List (String × Expr)}
      (htokens : tokensOf text = .ok tokens) (h : LowersFields refs vars bound)
      (hvariables : ∀ name ∈ Substitution.variableNames tokens,
        VariableResolves refs (bound.map Prod.fst) name) :
      Lowers refs (.object [("Fn::Sub", .list [.string text, .object vars])]) (.sub tokens bound)
  | intrinsic {fn : String} {args : Value} {e : Expr} (hfn : isIntrinsic fn = true)
      (hother : fn ≠ "Ref" ∧ fn ≠ "Fn::GetAtt" ∧ fn ≠ "Fn::Sub")
      (hcondition : fn = "Condition" → checkCondition refs (args.string?.getD "") = .ok ())
      (h : Lowers refs args e) : Lowers refs (.object [(fn, args)]) (.intrinsic fn e)

/-- The items of a list and their expressions. -/
inductive LowersItems (refs : Resolver) : List Value → List Expr → Prop
  | nil : LowersItems refs [] []
  | cons {v : Value} {e : Expr} {vs : List Value} {es : List Expr} (h : Lowers refs v e)
      (hs : LowersItems refs vs es) : LowersItems refs (v :: vs) (e :: es)

/-- The fields of an object and their expressions. -/
inductive LowersFields (refs : Resolver) : List (String × Value) → List (String × Expr) → Prop
  | nil : LowersFields refs [] []
  | cons {key : String} {v : Value} {e : Expr} {rest : List (String × Value)}
      {es : List (String × Expr)} (h : Lowers refs v e) (hs : LowersFields refs rest es) :
      LowersFields refs ((key, v) :: rest) ((key, e) :: es)

end

/-- Lowering keeps the keys of fields. -/
theorem LowersFields.map_fst {fields : List (String × Value)} {es : List (String × Expr)}
    (h : LowersFields refs fields es) : es.map Prod.fst = fields.map Prod.fst := by
  match h with
  | .nil => rfl
  | .cons _ hs => rw [List.map_cons, List.map_cons, hs.map_fst]

/-! ## Functions -/

theorem eq_string_of_getD {v : Value} {s : String} (h : v.string?.getD "" = s) (hs : s ≠ "") :
    v = .string s := by
  cases v with
  | string text =>
    cases h
    rfl
  | prim p => exact absurd h.symm hs
  | list items => exact absurd h.symm hs
  | object fields => exact absurd h.symm hs
  | foreign f => exact absurd h.symm hs

theorem lowers_of_lowerRef {args : Value} {e : Expr} (h : lowerRef refs args = .ok e) :
    Lowers refs (.object [("Ref", args)]) e := by
  unfold lowerRef at h
  split at h
  · obtain ⟨origin, hcheck, rfl⟩ := map_eq_ok_iff.1 h
    obtain ⟨horigin, hreferable⟩ := checkReferable_eq_ok_iff.1 hcheck
    exact .ref horigin hreferable
  · cases h

theorem lowers_of_lowerGetAtt {args : Value} {e : Expr} (h : lowerGetAtt refs args = .ok e) :
    Lowers refs (.object [("Fn::GetAtt", args)]) e := by
  unfold lowerGetAtt at h
  split at h
  rename_i resource attr hparts
  split at h
  · cases h
  · rename_i hparts'
    obtain ⟨_, hcheck, rfl⟩ := map_eq_ok_iff.1 h
    have hne : resource ≠ "" ∧ attr ≠ "" := by simpa using hparts'
    exact .getAtt hparts hne.1 hne.2 (checkResource_eq_ok_iff.1 hcheck)

theorem lowerSub_eq_ok {text : String} {bound : Except Failure (List (String × Expr))} {e : Expr}
    (h : lowerSub refs text bound = .ok e) :
    ∃ tokens es, tokensOf text = .ok tokens ∧ bound = .ok es ∧ e = .sub tokens es ∧
      ∀ name ∈ Substitution.variableNames tokens, VariableResolves refs (es.map Prod.fst) name := by
  unfold lowerSub at h
  obtain ⟨tokens, htokens, h⟩ := bind_eq_ok_iff.1 h
  obtain ⟨es, hbound, h⟩ := bind_eq_ok_iff.1 h
  obtain ⟨_, hvariables, h⟩ := bind_eq_ok_iff.1 h
  cases h
  exact ⟨tokens, es, noting_eq_ok_iff.1 htokens, hbound, rfl, checkVariables_eq_ok_iff.1 hvariables⟩

/-! ## Values -/

mutual

theorem lowers_of_lower (v : Value) {e : Expr} (h : lower refs v = .ok e) : Lowers refs v e := by
  -- the rules are those of the branches of `lower`, which looks at objects of one field apart
  match v with
  | .string s =>
    unfold lower at h
    cases h
    exact .string s
  | .prim p =>
    unfold lower at h
    cases h
    exact .scalar p
  | .foreign f =>
    unfold lower at h
    cases h
  | .list items =>
    unfold lower at h
    obtain ⟨es, hitems, rfl⟩ := map_eq_ok_iff.1 h
    exact .list (lowersItems_of_lowerItems items hitems)
  | .object [] =>
    unfold lower at h
    obtain ⟨es, hfields, rfl⟩ := map_eq_ok_iff.1 h
    exact .object (by simp [IsData]) (lowersFields_of_lowerFields [] hfields)
  | .object (first :: second :: rest) =>
    unfold lower at h
    obtain ⟨es, hfields, rfl⟩ := map_eq_ok_iff.1 h
    exact .object (by simp [IsData]) (lowersFields_of_lowerFields (first :: second :: rest) hfields)
  | .object [(fn, args)] =>
    unfold lower at h
    dsimp only at h
    split at h
    · rename_i hfn
      exact hfn ▸ lowers_of_lowerRef h
    split at h
    · rename_i hfn
      exact hfn ▸ lowers_of_lowerGetAtt h
    split at h
    · rename_i hfn
      subst hfn
      split at h
      · obtain ⟨tokens, es, htokens, hbound, rfl, hvariables⟩ := lowerSub_eq_ok h
        cases hbound
        exact .subText htokens hvariables
      · rename_i text vars
        obtain ⟨tokens, es, htokens, hbound, rfl, hvariables⟩ := lowerSub_eq_ok h
        exact .subBound htokens (lowersFields_of_lowerBound vars hbound) hvariables
      · cases h
    -- what is left is another function, or data
    rename_i href hgetAtt hsub
    split at h
    · rename_i hintrinsic
      -- only a condition has its argument checked first
      split at h
      · obtain ⟨_, hcondition, h⟩ := bind_eq_ok_iff.1 h
        obtain ⟨e', hargs, rfl⟩ := map_eq_ok_iff.1 h
        exact .intrinsic hintrinsic ⟨href, hgetAtt, hsub⟩ (fun _ => hcondition)
          (lowers_of_lower args (noting_eq_ok_iff.1 hargs))
      · rename_i hcondition
        obtain ⟨e', hargs, rfl⟩ := map_eq_ok_iff.1 h
        exact .intrinsic hintrinsic ⟨href, hgetAtt, hsub⟩ (fun heq => absurd heq hcondition)
          (lowers_of_lower args (noting_eq_ok_iff.1 hargs))
    · rename_i hdata
      obtain ⟨e', hargs, rfl⟩ := map_eq_ok_iff.1 h
      refine .object ?_ (.cons (lowers_of_lower args (noting_eq_ok_iff.1 hargs)) .nil)
      intro key arg heq
      cases heq
      simpa using hdata

theorem lowersItems_of_lowerItems (items : List Value) {position : Nat} {es : List Expr}
    (h : lowerItems refs position items = .ok es) : LowersItems refs items es := by
  match items with
  | [] =>
    unfold lowerItems at h
    cases h
    exact .nil
  | v :: vs =>
    unfold lowerItems at h
    obtain ⟨e, hv, h⟩ := bind_eq_ok_iff.1 h
    obtain ⟨rest, hvs, h⟩ := bind_eq_ok_iff.1 h
    cases h
    exact .cons (lowers_of_lower v (noting_eq_ok_iff.1 hv)) (lowersItems_of_lowerItems vs hvs)

theorem lowersFields_of_lowerFields (fields : List (String × Value)) {es : List (String × Expr)}
    (h : lowerFields refs fields = .ok es) : LowersFields refs fields es := by
  match fields with
  | [] =>
    unfold lowerFields at h
    cases h
    exact .nil
  | (key, v) :: vs =>
    unfold lowerFields at h
    obtain ⟨e, hv, h⟩ := bind_eq_ok_iff.1 h
    obtain ⟨rest, hvs, h⟩ := bind_eq_ok_iff.1 h
    cases h
    exact .cons (lowers_of_lower v (noting_eq_ok_iff.1 hv)) (lowersFields_of_lowerFields vs hvs)

theorem lowersFields_of_lowerBound (vars : List (String × Value)) {bound : List (String × Expr)}
    (h : lowerBound refs vars = .ok bound) : LowersFields refs vars bound := by
  match vars with
  | [] =>
    unfold lowerBound at h
    cases h
    exact .nil
  | (name, v) :: vs =>
    unfold lowerBound at h
    obtain ⟨e, hv, h⟩ := bind_eq_ok_iff.1 h
    obtain ⟨rest, hvs, h⟩ := bind_eq_ok_iff.1 h
    cases h
    exact .cons (lowers_of_lower v (noting_eq_ok_iff.1 hv)) (lowersFields_of_lowerBound vs hvs)

end

/-! ## Every rule is followed -/

theorem lowerSub_of_resolves {text : String} {bound : Except Failure (List (String × Expr))}
    {tokens : List (Substitution.Token String)} {es : List (String × Expr)}
    (htokens : tokensOf text = .ok tokens) (hbound : bound = .ok es)
    (hvariables : ∀ name ∈ Substitution.variableNames tokens,
      VariableResolves refs (es.map Prod.fst) name) :
    lowerSub refs text bound = .ok (.sub tokens es) := by
  unfold lowerSub
  refine bind_eq_ok_iff.2 ⟨tokens, noting_eq_ok_iff.2 htokens, ?_⟩
  refine bind_eq_ok_iff.2 ⟨es, hbound, ?_⟩
  exact bind_eq_ok_iff.2 ⟨(), checkVariables_eq_ok_iff.2 hvariables, rfl⟩

theorem lower_object_of_isData {fields : List (String × Value)} {es : List (String × Expr)}
    (hdata : IsData fields) (h : lowerFields refs fields = .ok es) :
    lower refs (.object fields) = .ok (.object es) := by
  match fields with
  | [] =>
    unfold lower
    exact map_eq_ok_iff.2 ⟨es, h, rfl⟩
  | [(fn, arg)] =>
    have hfn : isIntrinsic fn = false := hdata fn arg rfl
    have hne : fn ≠ "Ref" ∧ fn ≠ "Fn::GetAtt" ∧ fn ≠ "Fn::Sub" := hdata.ne_of_singleton
    -- a single field is lowered on its own, and `lowerFields` does the same to it
    rw [lowerFields, lowerFields] at h
    obtain ⟨e, harg, h⟩ := bind_eq_ok_iff.1 h
    cases h
    unfold lower
    dsimp only
    rw [if_neg hne.1, if_neg hne.2.1, if_neg hne.2.2, if_neg (by simp [hfn])]
    exact map_eq_ok_iff.2 ⟨e, harg, rfl⟩
  | first :: second :: rest =>
    unfold lower
    exact map_eq_ok_iff.2 ⟨es, h, rfl⟩

mutual

theorem lower_of_lowers {v : Value} {e : Expr} (h : Lowers refs v e) : lower refs v = .ok e := by
  match h with
  | .string s => rw [lower.eq_def]
  | .scalar p => rw [lower.eq_def]
  | .list hitems =>
    unfold lower
    exact map_eq_ok_iff.2 ⟨_, lowerItems_of_lowersItems 0 hitems, rfl⟩
  | .object hdata hfields => exact lower_object_of_isData hdata (lowerFields_of_lowersFields hfields)
  | .ref horigin hreferable =>
    unfold lower
    exact map_eq_ok_iff.2 ⟨_, checkReferable_eq_ok_iff.2 ⟨horigin, hreferable⟩, rfl⟩
  | .getAtt hparts hresource hattr horigin =>
    unfold lower
    dsimp only
    rw [if_neg (by decide), if_pos rfl, lowerGetAtt, hparts]
    dsimp only
    rw [if_neg (by simp [hresource, hattr])]
    exact map_eq_ok_iff.2 ⟨(), checkResource_eq_ok_iff.2 horigin, rfl⟩
  | .subText htokens hvariables =>
    unfold lower
    dsimp only
    rw [if_neg (by decide), if_neg (by decide), if_pos rfl]
    exact lowerSub_of_resolves htokens rfl hvariables
  | .subBound htokens hbound hvariables =>
    unfold lower
    dsimp only
    rw [if_neg (by decide), if_neg (by decide), if_pos rfl]
    exact lowerSub_of_resolves htokens (lowerBound_of_lowersFields hbound) hvariables
  | .intrinsic hfn hother hcondition hargs =>
    unfold lower
    dsimp only
    rw [if_neg hother.1, if_neg hother.2.1, if_neg hother.2.2, if_pos hfn]
    have hlowered := lower_of_lowers hargs
    split
    · rename_i heq
      refine bind_eq_ok_iff.2 ⟨(), hcondition heq, ?_⟩
      exact map_eq_ok_iff.2 ⟨_, noting_eq_ok_iff.2 hlowered, rfl⟩
    · exact map_eq_ok_iff.2 ⟨_, noting_eq_ok_iff.2 hlowered, rfl⟩

theorem lowerItems_of_lowersItems {items : List Value} {es : List Expr} (position : Nat)
    (h : LowersItems refs items es) : lowerItems refs position items = .ok es := by
  match h with
  | .nil => rw [lowerItems]
  | .cons hv hs =>
    unfold lowerItems
    refine bind_eq_ok_iff.2 ⟨_, noting_eq_ok_iff.2 (lower_of_lowers hv), ?_⟩
    exact bind_eq_ok_iff.2 ⟨_, lowerItems_of_lowersItems (position + 1) hs, rfl⟩

theorem lowerFields_of_lowersFields {fields : List (String × Value)} {es : List (String × Expr)}
    (h : LowersFields refs fields es) : lowerFields refs fields = .ok es := by
  match h with
  | .nil => rw [lowerFields]
  | .cons hv hs =>
    unfold lowerFields
    refine bind_eq_ok_iff.2 ⟨_, noting_eq_ok_iff.2 (lower_of_lowers hv), ?_⟩
    exact bind_eq_ok_iff.2 ⟨_, lowerFields_of_lowersFields hs, rfl⟩

theorem lowerBound_of_lowersFields {vars : List (String × Value)} {bound : List (String × Expr)}
    (h : LowersFields refs vars bound) : lowerBound refs vars = .ok bound := by
  match h with
  | .nil => rw [lowerBound]
  | .cons hv hs =>
    unfold lowerBound
    refine bind_eq_ok_iff.2 ⟨_, noting_eq_ok_iff.2 (lower_of_lowers hv), ?_⟩
    exact bind_eq_ok_iff.2 ⟨_, lowerBound_of_lowersFields hs, rfl⟩

end

/-- Lowering follows the rules and nothing else. -/
theorem lower_eq_ok_iff {v : Value} {e : Expr} : lower refs v = .ok e ↔ Lowers refs v e :=
  ⟨lowers_of_lower v, lower_of_lowers⟩

end StackIr.Ir

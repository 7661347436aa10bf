import StackIr.Proofs.Lowering.Judgment

/-! # Parts of an expression

    The expressions inside an expression, at any depth, and what holds of each of them when
    it comes from lowering: every reference is one that the resolver allows. -/

namespace StackIr.Ir

variable {refs : Resolver}

namespace Expr

mutual

/-- An expression and the expressions inside it, at any depth.  Variables that a substitution
    string binds are entered if `enter` holds of them. -/
def partsWhere (enter : List (String × Expr) → Bool) : Expr → List Expr
  | .list items => .list items :: partsOfItems enter items
  | .object fields => .object fields :: partsOfFields enter fields
  | .sub tokens bound =>
    .sub tokens bound :: (if enter bound then partsOfFields enter bound else [])
  | .intrinsic fn args => .intrinsic fn args :: args.partsWhere enter
  | .string s => [.string s]
  | .scalar p => [.scalar p]
  | .ref name origin => [.ref name origin]
  | .getAtt resource attr => [.getAtt resource attr]

def partsOfItems (enter : List (String × Expr) → Bool) : List Expr → List Expr
  | [] => []
  | e :: es => e.partsWhere enter ++ partsOfItems enter es

def partsOfFields (enter : List (String × Expr) → Bool) : List (String × Expr) → List Expr
  | [] => []
  | (_, e) :: rest => e.partsWhere enter ++ partsOfFields enter rest

end

/-- An expression and all expressions inside it. -/
def parts (e : Expr) : List Expr :=
  e.partsWhere fun _ => true

/-- What an expression refers to by itself is something that may be referred to. -/
def Resolved (refs : Resolver) : Expr → Prop
  | .ref name origin => refs.origin? name = some origin ∧ origin.isReferable = true
  | .getAtt resource attr => attr ≠ "" ∧ refs.origin? resource = some .resource
  | .sub tokens bound =>
    ∀ name ∈ Substitution.variableNames tokens, VariableResolves refs (bound.map Prod.fst) name
  | _ => True

end Expr

/-! ## Lowered expressions -/

mutual

theorem Lowers.resolved {v : Value} {e : Expr} (h : Lowers refs v e) :
    ∀ part ∈ e.parts, part.Resolved refs := by
  match h with
  | .string s => simp [Expr.parts, Expr.partsWhere, Expr.Resolved]
  | .scalar p => simp [Expr.parts, Expr.partsWhere, Expr.Resolved]
  | .list hitems =>
    rw [Expr.parts, Expr.partsWhere, List.forall_mem_cons]
    exact ⟨trivial, hitems.resolved⟩
  | .object hdata hfields =>
    rw [Expr.parts, Expr.partsWhere, List.forall_mem_cons]
    exact ⟨trivial, hfields.resolved⟩
  | .ref horigin hreferable =>
    rw [Expr.parts, Expr.partsWhere, List.forall_mem_singleton]
    exact ⟨horigin, hreferable⟩
  | .getAtt hparts hresource hattr horigin =>
    rw [Expr.parts, Expr.partsWhere, List.forall_mem_singleton]
    exact ⟨hattr, horigin⟩
  | .subText htokens hvariables =>
    rw [Expr.parts, Expr.partsWhere, List.forall_mem_cons]
    exact ⟨hvariables, by simp [Expr.partsOfFields]⟩
  | .subBound htokens hbound hvariables =>
    rw [Expr.parts, Expr.partsWhere, List.forall_mem_cons]
    exact ⟨hvariables, hbound.resolved⟩
  | .intrinsic hfn hother hcondition hargs =>
    rw [Expr.parts, Expr.partsWhere, List.forall_mem_cons]
    exact ⟨trivial, hargs.resolved⟩

theorem LowersItems.resolved {items : List Value} {es : List Expr} (h : LowersItems refs items es) :
    ∀ part ∈ Expr.partsOfItems (fun _ => true) es, part.Resolved refs := by
  match h with
  | .nil => simp [Expr.partsOfItems]
  | .cons hv hs =>
    rw [Expr.partsOfItems, List.forall_mem_append]
    exact ⟨hv.resolved, hs.resolved⟩

theorem LowersFields.resolved {fields : List (String × Value)} {es : List (String × Expr)}
    (h : LowersFields refs fields es) :
    ∀ part ∈ Expr.partsOfFields (fun _ => true) es, part.Resolved refs := by
  match h with
  | .nil => simp [Expr.partsOfFields]
  | .cons hv hs =>
    rw [Expr.partsOfFields, List.forall_mem_append]
    exact ⟨hv.resolved, hs.resolved⟩

end

end StackIr.Ir

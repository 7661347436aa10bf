import StackIr.Proofs.Lowering.WellFormed
import StackIr.Proofs.Substitution.RoundTrip

/-! # Expressions written back as values

    `Expr.raise` writes an expression as a value.  Lowering loses nothing but spelling: what is
    raised after lowering is the value itself in its plain spelling, and it lowers to the same
    expression again.

    Two things are spelled in two ways.  The argument of an attribute reference is a text with a
    point or a pair, and a substitution string without variables stands alone or with an empty
    map.  The plain spelling has the pair and no empty map. -/

namespace StackIr

namespace Substitution

/-- Writing the tokens of a string gives the string back. -/
theorem formatString_of_scanString {text : String} {tokens : List (Token String)}
    (h : scanString text = .ok tokens) : formatString tokens = text := by
  unfold scanString at h
  split at h
  · rename_i chars hscan
    cases h
    -- tokens are scanned as lists of characters and kept as strings; nothing is lost between them
    have hmap : (chars.map (Token.map String.ofList)).map (Token.map String.toList) = chars := by
      rw [List.map_map]
      refine List.map_id'' ?_ chars
      intro token
      cases token with
      | literal text => simp [Token.map]
      | var name => simp [Token.map]
    rw [formatString, hmap, (scan_eq_ok_iff.1 hscan).format_eq, String.ofList_toList]
  · cases h

end Substitution

namespace Ir

variable {refs : Resolver}

/-! ## Raising -/

namespace Expr

mutual

/-- The value that an expression is written as. -/
def raise : Expr → Value
  | .string s => .string s
  | .scalar p => .prim p
  | .list items => .list (raiseItems items)
  | .object fields => .object (raiseFields fields)
  | .ref name _ => .object [("Ref", .string name)]
  | .getAtt resource attr => .object [("Fn::GetAtt", .list [.string resource, .string attr])]
  | .sub tokens [] => .object [("Fn::Sub", .string (Substitution.formatString tokens))]
  | .sub tokens (var :: vars) =>
    .object [("Fn::Sub",
      .list [.string (Substitution.formatString tokens), .object (raiseFields (var :: vars))])]
  | .intrinsic fn args => .object [(fn, args.raise)]

/-- The values of the items of a list. -/
def raiseItems : List Expr → List Value
  | [] => []
  | e :: es => e.raise :: raiseItems es

/-- The values of the fields of an object, and of the variables of a substitution string. -/
def raiseFields : List (String × Expr) → List (String × Value)
  | [] => []
  | (key, e) :: rest => (key, e.raise) :: raiseFields rest

end

@[simp] theorem map_fst_raiseFields (fields : List (String × Expr)) :
    (raiseFields fields).map Prod.fst = fields.map Prod.fst := by
  induction fields with
  | nil => rfl
  | cons field rest ih => rw [raiseFields, List.map_cons, List.map_cons, ih]

end Expr

/-! ## Spelling -/

/-- The argument of an attribute reference as a pair, if it is a text with a point. -/
def attributePair : Value → Value
  | .string s =>
    match Text.cut? "." s with
    | some (resource, attr) => .list [.string resource, .string attr]
    | none => .string s
  | args => args

mutual

/-- A value in its plain spelling.  The map of a substitution string is no value of its own:
    its keys are names of variables, whatever they look like. -/
def respell : Value → Value
  | .list items => .list (respellItems items)
  | .object [(fn, args)] =>
    if fn = "Fn::GetAtt" then .object [(fn, attributePair args)]
    else if fn = "Fn::Sub" then
      match args with
      | .list [.string text, .object []] => .object [(fn, .string text)]
      | .list [.string text, .object (var :: vars)] =>
        .object [(fn, .list [.string text, .object (respellFields (var :: vars))])]
      | args => .object [(fn, respell args)]
    else .object [(fn, respell args)]
  | .object fields => .object (respellFields fields)
  | .prim p => .prim p
  | .string s => .string s
  | .foreign f => .foreign f

/-- The items of a list in their plain spelling. -/
def respellItems : List Value → List Value
  | [] => []
  | v :: vs => respell v :: respellItems vs

/-- The values of fields in their plain spelling. -/
def respellFields : List (String × Value) → List (String × Value)
  | [] => []
  | (key, v) :: rest => (key, respell v) :: respellFields rest

end

theorem respell_function {fn : String} {args : Value} (hgetAtt : fn ≠ "Fn::GetAtt")
    (hsub : fn ≠ "Fn::Sub") : respell (.object [(fn, args)]) = .object [(fn, respell args)] := by
  rw [respell.eq_def]
  dsimp only
  rw [if_neg hgetAtt, if_neg hsub]

theorem respell_data {fields : List (String × Value)} (hdata : IsData fields) :
    respell (.object fields) = .object (respellFields fields) := by
  match fields with
  | [] => rw [respell.eq_def]
  | [(fn, arg)] =>
    obtain ⟨_, hgetAtt, hsub⟩ := hdata.ne_of_singleton
    rw [respell_function hgetAtt hsub, respellFields, respellFields]
  | first :: second :: rest => rw [respell.eq_def]

theorem respell_getAtt {args : Value} {resource attr : String}
    (h : WritesAttribute resource attr args) :
    respell (.object [("Fn::GetAtt", args)]) =
      .object [("Fn::GetAtt", .list [.string resource, .string attr])] := by
  rw [respell.eq_def]
  dsimp only
  rw [if_pos rfl]
  cases h with
  | text hpoint =>
    -- a text that names an attribute is cut at its first point, where the pair is put together
    have hcut : Text.cut? "." (resource ++ "." ++ attr) = some (resource, attr) :=
      (Text.cut?_eq_some_iff (c := '.') rfl).2 ⟨rfl, hpoint⟩
    rw [attributePair, hcut]
  | pair => rfl

/-- Spelling makes no string and unmakes none. -/
@[simp] theorem string?_respell (v : Value) : (respell v).string? = v.string? := by
  fun_cases respell v with
  | _ => rfl

/-! ## Raising what was lowered -/

mutual

/-- What is raised after lowering is the value in its plain spelling. -/
theorem Lowers.raise_eq {v : Value} {e : Expr} (h : Lowers refs v e) : e.raise = respell v := by
  match h with
  | .string s => rw [Expr.raise, respell]
  | .scalar p => rw [Expr.raise, respell]
  | .list hitems => rw [Expr.raise, respell, hitems.raise_eq]
  | .object hdata hfields => rw [Expr.raise, respell_data hdata, hfields.raise_eq]
  | .ref horigin hreferable =>
    rw [Expr.raise, respell_function (by decide) (by decide), respell]
  | .getAtt hparts hresource hattr horigin =>
    rw [Expr.raise, respell_getAtt ((attributeParts_eq_iff hresource hattr).1 hparts)]
  | .subText htokens hvariables =>
    have hformat := Substitution.formatString_of_scanString (tokensOf_eq_ok_iff.1 htokens)
    rw [Expr.raise, hformat, respell.eq_def]
    rfl
  | .subBound htokens hbound hvariables =>
    have hformat := Substitution.formatString_of_scanString (tokensOf_eq_ok_iff.1 htokens)
    -- whether the map is left out depends on the expression, so its variables are raised first
    have hvars := hbound.raise_eq
    cases hbound with
    | nil =>
      -- a map without variables is left out
      rw [Expr.raise, hformat, respell.eq_def]
      rfl
    | cons hvar hrest =>
      rw [Expr.raise, hvars, hformat, respell.eq_def]
      rfl
  | .intrinsic hfn hother hcondition hargs =>
    rw [Expr.raise, respell_function hother.2.1 hother.2.2, hargs.raise_eq]

theorem LowersItems.raise_eq {items : List Value} {es : List Expr}
    (h : LowersItems refs items es) : Expr.raiseItems es = respellItems items := by
  match h with
  | .nil => rfl
  | .cons hv hs => rw [Expr.raiseItems, respellItems, hv.raise_eq, hs.raise_eq]

theorem LowersFields.raise_eq {fields : List (String × Value)} {es : List (String × Expr)}
    (h : LowersFields refs fields es) : Expr.raiseFields es = respellFields fields := by
  match h with
  | .nil => rfl
  | .cons hv hs => rw [Expr.raiseFields, respellFields, hv.raise_eq, hs.raise_eq]

end

/-! ## Lowering what was raised -/

theorem IsData.raiseFields {fields : List (String × Value)} {es : List (String × Expr)}
    (hdata : IsData fields) (h : LowersFields refs fields es) : IsData (Expr.raiseFields es) := by
  intro fn arg heq
  -- the keys are the same, so there is one field before if there is one after
  have hkeys : fields.map Prod.fst = [fn] := by
    rw [← h.map_fst, ← Expr.map_fst_raiseFields, heq]
    rfl
  obtain ⟨field, rfl, rfl⟩ := List.map_eq_singleton_iff.1 hkeys
  exact hdata field.1 field.2 rfl

mutual

/-- What is raised lowers to the same expression. -/
theorem Lowers.lowers_raise {v : Value} {e : Expr} (h : Lowers refs v e) :
    Lowers refs e.raise e := by
  match h with
  | .string s =>
    rw [Expr.raise]
    exact .string s
  | .scalar p =>
    rw [Expr.raise]
    exact .scalar p
  | .list hitems =>
    rw [Expr.raise]
    exact .list hitems.lowers_raise
  | .object hdata hfields =>
    rw [Expr.raise]
    exact .object (hdata.raiseFields hfields) hfields.lowers_raise
  | .ref horigin hreferable =>
    rw [Expr.raise]
    exact .ref horigin hreferable
  | .getAtt hparts hresource hattr horigin =>
    rw [Expr.raise]
    exact .getAtt rfl hresource hattr horigin
  | .subText htokens hvariables =>
    have hformat := Substitution.formatString_of_scanString (tokensOf_eq_ok_iff.1 htokens)
    rw [Expr.raise, hformat]
    exact .subText htokens hvariables
  | .subBound htokens hbound hvariables =>
    have hformat := Substitution.formatString_of_scanString (tokensOf_eq_ok_iff.1 htokens)
    have hraised := hbound.lowers_raise
    cases hbound with
    | nil =>
      rw [Expr.raise, hformat]
      exact .subText htokens hvariables
    | cons hvar hrest =>
      rw [Expr.raise, hformat]
      exact .subBound htokens hraised hvariables
  | .intrinsic hfn hother hcondition hargs =>
    -- the check of a condition sees the name that it saw before
    have hname := string?_respell _ ▸ congrArg Value.string? hargs.raise_eq
    rw [Expr.raise]
    exact .intrinsic hfn hother (fun heq => hname.symm ▸ hcondition heq) hargs.lowers_raise

theorem LowersItems.lowers_raise {items : List Value} {es : List Expr}
    (h : LowersItems refs items es) : LowersItems refs (Expr.raiseItems es) es := by
  match h with
  | .nil => exact .nil
  | .cons hv hs => exact .cons hv.lowers_raise hs.lowers_raise

theorem LowersFields.lowers_raise {fields : List (String × Value)} {es : List (String × Expr)}
    (h : LowersFields refs fields es) : LowersFields refs (Expr.raiseFields es) es := by
  match h with
  | .nil => exact .nil
  | .cons hv hs => exact .cons hv.lowers_raise hs.lowers_raise

end

/-- Lowering loses nothing but spelling: the expression of a value can be raised and lowered
    again, raising gives the value in its plain spelling, and so two values with one expression
    differ in spelling only. -/
theorem lower_raise_eq (refs : Resolver) (v : Value) (e : Expr) (h : lower refs v = .ok e) :
    lower refs e.raise = .ok e ∧ e.raise = respell v ∧
      ∀ other, lower refs other = .ok e → respell other = respell v := by
  have hlowers : Lowers refs v e := lower_eq_ok_iff.1 h
  refine ⟨lower_eq_ok_iff.2 hlowers.lowers_raise, hlowers.raise_eq, ?_⟩
  intro other hother
  calc respell other = e.raise := (lower_eq_ok_iff.1 hother).raise_eq.symm
    _ = respell v := hlowers.raise_eq

/-- A resolver that knows one queue. -/
def queueResolver : Resolver where
  origin? name := if name = "Queue" then some .resource else none
  isCondition _ := false

/-- A substitution string whose one variable is named like a function. -/
def boundAttribute : Value :=
  .object [("Fn::Sub", .list
    [.string "$\x7bFn::GetAtt\x7d", .object [("Fn::GetAtt", .string "Queue.Arn")]])]

/-- Both spellings in one value, and a text with a point that is no attribute reference. -/
def bothSpellings : Value :=
  .list [ .object [("Fn::GetAtt", .string "Queue.Arn.Name")],
    .object [("Fn::Sub", .list [.string "text", .object []])], boundAttribute ]

theorem lower_raise_eq_bothSpellings :
    ∃ e, lower queueResolver bothSpellings = .ok e ∧ lower queueResolver e.raise = .ok e ∧
      e.raise = .list
        [ .object [("Fn::GetAtt", .list [.string "Queue", .string "Arn.Name"])],
          .object [("Fn::Sub", .string "text")], boundAttribute ] := by
  have htext : tokensOf "text" = .ok [.literal "text"] := mapError_eq_ok_iff.2 (by cbv)
  have hvariable : tokensOf "$\x7bFn::GetAtt\x7d" = .ok [.var "Fn::GetAtt"] :=
    mapError_eq_ok_iff.2 (by cbv)
  have hbound : ∀ name ∈ Substitution.variableNames [Substitution.Token.var "Fn::GetAtt"],
      VariableResolves queueResolver ["Fn::GetAtt"] name :=
    List.forall_mem_singleton.2 (.isBound (by decide))
  have h : lower queueResolver bothSpellings = .ok (.list
      [ .getAtt "Queue" "Arn.Name", .sub [.literal "text"] [],
        .sub [.var "Fn::GetAtt"] [("Fn::GetAtt", .string "Queue.Arn")] ]) := by
    refine lower_eq_ok_iff.2 (.list (.cons ?_ (.cons ?_ (.cons ?_ .nil))))
    · exact .getAtt (by decide) (by decide) (by decide) rfl
    · exact .subBound htext .nil (by simp [Substitution.variableNames, Substitution.Token.var?])
    · exact .subBound hvariable (.cons (.string _) .nil) hbound
  obtain ⟨hagain, hraise, -⟩ := lower_raise_eq queueResolver bothSpellings _ h
  refine ⟨_, h, hagain, hraise.trans ?_⟩
  have hcut : Text.cut? "." "Queue.Arn.Name" = some ("Queue", "Arn.Name") := by decide
  simp [bothSpellings, boundAttribute, respell, respellItems, respellFields, attributePair, hcut]

end Ir

end StackIr

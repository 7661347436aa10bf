import StackIr.Proofs.Lowering.Outputs
import StackIr.Proofs.Resolver

/-! # Lowering with more names

    What is lowered stays as it is when more names become known.  Every check that succeeds
    rests on what a name is, and none on a name being unknown: a resolver that says the same of
    all names that another one knows accepts whatever that one accepts, with the same result.

    A new declaration of a name that was not known is such a case, in whatever section it stands
    and although sections hide each other. -/

namespace StackIr

/-! ## Resolvers that know more -/

/-- A second resolver says the same of every name that the first one knows, and has all of its
    conditions. -/
structure Resolver.ExtendedBy (refs refs' : Resolver) : Prop where
  origin : ∀ name origin, refs.origin? name = some origin → refs'.origin? name = some origin
  condition : ∀ name, refs.isCondition name = true → refs'.isCondition name = true

namespace Ir

variable {refs refs' : Resolver}

theorem checkCondition_extendedBy (hext : refs.ExtendedBy refs') {name : String}
    (h : checkCondition refs name = .ok ()) : checkCondition refs' name = .ok () := by
  rw [checkCondition_eq_ok_iff] at h ⊢
  exact h.imp_right (hext.condition name)

theorem VariableResolves.extendedBy (hext : refs.ExtendedBy refs') {bound : List String}
    {name : String} (h : VariableResolves refs bound name) : VariableResolves refs' bound name := by
  cases h with
  | isBound h => exact .isBound h
  | attributeOf resource h horigin => exact .attributeOf resource h (hext.origin _ _ horigin)
  | referable origin h horigin hreferable =>
    exact .referable origin h (hext.origin _ _ horigin) hreferable

mutual

theorem Lowers.extendedBy (hext : refs.ExtendedBy refs') {v : Value} {e : Expr}
    (h : Lowers refs v e) : Lowers refs' v e := by
  match h with
  | .string s => exact .string s
  | .scalar p => exact .scalar p
  | .list hitems => exact .list (hitems.extendedBy hext)
  | .object hdata hfields => exact .object hdata (hfields.extendedBy hext)
  | .ref horigin hreferable => exact .ref (hext.origin _ _ horigin) hreferable
  | .getAtt hparts hresource hattr horigin =>
    exact .getAtt hparts hresource hattr (hext.origin _ _ horigin)
  | .subText htokens hvariables =>
    exact .subText htokens fun name hname => (hvariables name hname).extendedBy hext
  | .subBound htokens hbound hvariables =>
    exact .subBound htokens (hbound.extendedBy hext) fun name hname =>
      (hvariables name hname).extendedBy hext
  | .intrinsic hfn hother hcondition hargs =>
    -- a condition that is known stays known; all other arguments are judged again
    exact .intrinsic hfn hother (fun heq => checkCondition_extendedBy hext (hcondition heq))
      (hargs.extendedBy hext)

theorem LowersItems.extendedBy (hext : refs.ExtendedBy refs') {items : List Value} {es : List Expr}
    (h : LowersItems refs items es) : LowersItems refs' items es := by
  match h with
  | .nil => exact .nil
  | .cons hv hs => exact .cons (hv.extendedBy hext) (hs.extendedBy hext)

theorem LowersFields.extendedBy (hext : refs.ExtendedBy refs') {fields : List (String × Value)}
    {es : List (String × Expr)} (h : LowersFields refs fields es) :
    LowersFields refs' fields es := by
  match h with
  | .nil => exact .nil
  | .cons hv hs => exact .cons (hv.extendedBy hext) (hs.extendedBy hext)

end

theorem lower_extendedBy (hext : refs.ExtendedBy refs') {v : Value} {e : Expr}
    (h : lower refs v = .ok e) : lower refs' v = .ok e :=
  lower_eq_ok_iff.2 ((lower_eq_ok_iff.1 h).extendedBy hext)

/-! ## Outputs -/

theorem lowerExport_extendedBy (hext : refs.ExtendedBy refs') {v : Value} {exported : Option Expr}
    (h : lowerExport refs v = .ok exported) : lowerExport refs' v = .ok exported := by
  unfold lowerExport at h ⊢
  split
  · rename_i hnull
    rwa [if_pos hnull] at h
  · rename_i hnull
    rw [if_neg hnull] at h
    obtain ⟨e, he, rfl⟩ := map_eq_ok_iff.1 h
    exact map_eq_ok_iff.2 ⟨e, noting_eq_ok_iff.2 (lower_extendedBy hext (noting_eq_ok_iff.1 he)), rfl⟩

theorem lowerOutput_extendedBy (hext : refs.ExtendedBy refs') {name : String} {o : Output}
    {out : OutputInstruction} (h : lowerOutput refs name o = .ok out) :
    lowerOutput refs' name o = .ok out := by
  unfold lowerOutput at h ⊢
  obtain ⟨_, hcondition, h⟩ := bind_eq_ok_iff.1 h
  obtain ⟨value, hvalue, h⟩ := bind_eq_ok_iff.1 h
  obtain ⟨exported, hexported, h⟩ := bind_eq_ok_iff.1 h
  refine bind_eq_ok_iff.2 ⟨(), checkCondition_extendedBy hext hcondition, ?_⟩
  refine bind_eq_ok_iff.2 ⟨value, lower_extendedBy hext hvalue, ?_⟩
  exact bind_eq_ok_iff.2 ⟨exported, lowerExport_extendedBy hext hexported, h⟩

theorem lowerOutputList_extendedBy (hext : refs.ExtendedBy refs') {entries : List (String × Output)}
    {outs : List OutputInstruction} (h : lowerOutputList refs entries = .ok outs) :
    lowerOutputList refs' entries = .ok outs := by
  induction entries generalizing outs with
  | nil => exact h
  | cons entry rest ih =>
    unfold lowerOutputList at h ⊢
    obtain ⟨out, hout, h⟩ := bind_eq_ok_iff.1 h
    obtain ⟨more, hmore, h⟩ := bind_eq_ok_iff.1 h
    have hout' := lowerOutput_extendedBy hext (noting_eq_ok_iff.1 hout)
    refine bind_eq_ok_iff.2 ⟨out, noting_eq_ok_iff.2 hout', ?_⟩
    exact bind_eq_ok_iff.2 ⟨more, ih hmore, h⟩

theorem lowerOutputs_extendedBy (hext : refs.ExtendedBy refs') {s : Section Output}
    {outs : Option (List OutputInstruction)} (h : lowerOutputs refs s = .ok outs) :
    lowerOutputs refs' s = .ok outs := by
  cases s with
  | none => exact h
  | some outputs =>
    obtain ⟨list, hlist, rfl⟩ := map_eq_ok_iff.1 h
    exact map_eq_ok_iff.2 ⟨list, lowerOutputList_extendedBy hext hlist, rfl⟩

end Ir

/-! ## New declarations -/

/-- A second section has one entry more than the first, at any place. -/
def Section.AddsEntry {α : Type} (s s' : Section α) (name : String) : Prop :=
  ∃ before declared after, Section.entries s = before ++ after ∧
    Section.entries s' = before ++ (name, declared) :: after

theorem Section.AddsEntry.mem_names_iff {α : Type} {s s' : Section α} {name other : String}
    (h : s.AddsEntry s' name) (hne : other ≠ name) :
    other ∈ Section.names s' ↔ other ∈ Section.names s := by
  obtain ⟨before, declared, after, hs, hs'⟩ := h
  rw [Section.names, Section.names, hs, hs']
  simp [hne]

namespace Template

/-- A template with one more parameter, mapping, condition or resource of a name. -/
inductive AddsDeclaration (t : Template) (name : String) : Template → Prop
  | parameter {s : Section Parameter} (h : t.parameters.AddsEntry s name) :
      AddsDeclaration t name { t with parameters := s }
  | mapping {s : Section LookupTable} (h : t.mappings.AddsEntry s name) :
      AddsDeclaration t name { t with mappings := s }
  | condition {s : Section Value} (h : t.conditions.AddsEntry s name) :
      AddsDeclaration t name { t with conditions := s }
  | resource {s : Section Resource} (h : t.resources.AddsEntry s name) :
      AddsDeclaration t name { t with resources := s }

variable {t t' : Template} {name : String}

/-- A new declaration changes nothing for other names. -/
theorem AddsDeclaration.ofTemplate_eq (h : t.AddsDeclaration name t') {other : String}
    (hne : other ≠ name) :
    (Resolver.ofTemplate t').origin? other = (Resolver.ofTemplate t).origin? other ∧
      (Resolver.ofTemplate t').isCondition other = (Resolver.ofTemplate t).isCondition other := by
  -- both questions are answered by the names in the sections, and only one section changes
  rw [Bool.eq_iff_iff, Resolver.isCondition_ofTemplate_iff, Resolver.isCondition_ofTemplate_iff,
    Resolver.origin?_ofTemplate, Resolver.origin?_ofTemplate, NameTable.origin?_ofTemplate,
    NameTable.origin?_ofTemplate]
  cases h with
  | parameter h => simp only [h.mem_names_iff hne, and_self]
  | mapping h => simp only [h.mem_names_iff hne, and_self]
  | condition h => simp only [h.mem_names_iff hne, and_self]
  | resource h => simp only [h.mem_names_iff hne, and_self]

theorem AddsDeclaration.extendedBy (h : t.AddsDeclaration name t') (hnew : t.Undeclared name) :
    (Resolver.ofTemplate t).ExtendedBy (.ofTemplate t') where
  origin := by
    intro other origin horigin
    -- the name was unknown, so no name with an origin is the new one
    have hne : other ≠ name := by
      rintro rfl
      exact hnew origin (Resolver.declaresAs_of_origin? horigin)
    rw [(h.ofTemplate_eq hne).1]
    exact horigin
  condition := by
    intro other hcondition
    have hne : other ≠ name := by
      rintro rfl
      exact hnew .condition (Resolver.isCondition_ofTemplate_iff.1 hcondition)
    rw [(h.ofTemplate_eq hne).2]
    exact hcondition

theorem AddsDeclaration.outputs_eq (h : t.AddsDeclaration name t') : t'.outputs = t.outputs := by
  cases h with
  | parameter _ => rfl
  | mapping _ => rfl
  | condition _ => rfl
  | resource _ => rfl

end Template

namespace Ir

/-- A value has the same expression with a resolver that knows more.  So a new declaration of
    an unknown name changes no output that could be lowered without it, and not the outputs as
    a whole if all could. -/
theorem lower_stable :
    (∀ refs refs' : Resolver, refs.ExtendedBy refs' →
      ∀ v e, lower refs v = .ok e → lower refs' v = .ok e) ∧
    ∀ (t t' : Template) (name : String), t.AddsDeclaration name t' → t.Undeclared name →
      (∀ key o out, lowerOutput (.ofTemplate t) key o = .ok out →
        lowerOutput (.ofTemplate t') key o = .ok out) ∧
      ∀ outs, lowerOutputs (.ofTemplate t) t.outputs = .ok outs →
        lowerOutputs (.ofTemplate t') t'.outputs = .ok outs := by
  refine ⟨?_, ?_⟩
  · intro refs refs' hext v e h
    exact lower_extendedBy hext h
  · intro t t' name hadds hnew
    have hext := hadds.extendedBy hnew
    refine ⟨?_, ?_⟩
    · intro key o out h
      exact lowerOutput_extendedBy hext h
    · intro outs h
      rw [hadds.outputs_eq]
      exact lowerOutputs_extendedBy hext h

/-- A queue, and an output with its attribute and a variable that has the name of nothing. -/
def queueAddress : Template where
  conditions := some (.ofList [("IsLive", .prim (.bool true))])
  resources := some (.ofList [("Queue", { type := "AWS::SQS::Queue" })])
  outputs := some (.ofList
    [ ("Address", {
        condition := "IsLive"
        value := .object [("Fn::Sub", .list
          [ .string "$\x7bQueue.Arn\x7d-$\x7bStage\x7d", .object [("Stage", .string "live")] ])] }) ])

/-- The same with a parameter. -/
def queueAddressWith (parameter : String) : Template :=
  { queueAddress with parameters := some (.ofList [(parameter, {})]) }

/-- Parameters that are called like the attribute or like the variable capture neither. -/
theorem lower_stable_queueAddress :
    ∃ outs, lowerOutputs (.ofTemplate queueAddress) queueAddress.outputs = .ok outs ∧
      (outs.getD []).map (fun out => out.value.map Expr.kind) = [some "Fn::Sub"] ∧
      ∀ parameter ∈ ["Queue.Arn", "Stage"],
        lowerOutputs (.ofTemplate (queueAddressWith parameter)) queueAddress.outputs = .ok outs ∧
        lower (.ofTemplate (queueAddressWith parameter)) (.object [("Ref", .string "Queue")]) =
          .ok (.ref "Queue" .resource) := by
  have heval : (lowerOutputs (.ofTemplate queueAddress) queueAddress.outputs).toOption.map
      (fun outs => (outs.getD []).map fun out => out.value.map Expr.kind) =
        some [some "Fn::Sub"] := by
    decide +kernel
  have hnew : ∀ parameter ∈ ["Queue.Arn", "Stage"], queueAddress.Undeclared parameter := by
    simp only [Template.undeclared_iff]
    decide +kernel
  have hadds : ∀ parameter, queueAddress.AddsDeclaration parameter (queueAddressWith parameter) :=
    fun parameter => .parameter ⟨[], {}, [], rfl, rfl⟩
  have hqueue : (Resolver.ofTemplate queueAddress).origin? "Queue" = some .resource :=
    Resolver.origin?_ofTemplate_eq_resource_iff.2 (by decide +kernel)
  cases h : lowerOutputs (.ofTemplate queueAddress) queueAddress.outputs with
  | error failure =>
    rw [h] at heval
    cases heval
  | ok outs =>
    rw [h] at heval
    refine ⟨outs, rfl, Option.some.inj heval, ?_⟩
    intro parameter hparameter
    have hnew' := hnew parameter hparameter
    refine ⟨(lower_stable.2 _ _ parameter (hadds parameter) hnew').2 outs h, ?_⟩
    exact lower_stable.1 _ _ ((hadds parameter).extendedBy hnew') _ _
      (lower_eq_ok_iff.2 (.ref hqueue rfl))

end Ir

end StackIr

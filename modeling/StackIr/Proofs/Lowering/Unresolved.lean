import StackIr.Proofs.Lowering.Outputs
import StackIr.Proofs.Lowering.WellFormed
import StackIr.Proofs.Resolver

/-! # Names that are refused

    When lowering refuses a name, the failure says what was used, by which function, and where
    the name comes from.  All of it is true: the value uses the name in a position of that
    function, with no variable of a substitution string in the way, and the name comes from
    nowhere or from where the position does not accept it.

    Where a value uses a name is said without lowering.  The statements are about values with
    fields in any order, so they hold in whatever order the fields are visited. -/

namespace StackIr

open Ir

/-! ## Uses of names -/

/-- Where a value may use a name. -/
inductive Position where
  /-- The condition of an output, or one that is asked for. -/
  | condition
  | ref
  /-- The resource of an attribute. -/
  | getAtt
  /-- The resource of a variable that is an attribute. -/
  | subAttribute
  /-- A variable as a whole. -/
  | subVariable

namespace Position

/-- The function that a position belongs to. -/
def intrinsic : Position → String
  | .condition => "Condition"
  | .ref => "Ref"
  | .getAtt => "Fn::GetAtt"
  | .subAttribute => "Fn::Sub"
  | .subVariable => "Fn::Sub"

/-- The origins of the names that may stand in a position. -/
def accepts : Position → List Origin
  | .condition => [.condition]
  | .ref => [.parameter, .resource, .pseudoParameter]
  | .getAtt => [.resource]
  | .subAttribute => [.resource]
  | .subVariable => [.parameter, .resource, .pseudoParameter]

/-- A name may stand in a position.  A condition is found under whatever declares its name
    besides. -/
def Allows (refs : Resolver) (name : String) : Position → Prop
  | .condition => refs.isCondition name = true
  | .ref => Referable refs name
  | .getAtt => refs.origin? name = some .resource
  | .subAttribute => refs.origin? name = some .resource
  | .subVariable => Referable refs name

/-- A name that is not allowed has no origin that the position accepts. -/
theorem not_mem_accepts {position : Position} {t : Template} {name : String} {origin : Origin}
    (h : ¬ position.Allows (.ofTemplate t) name)
    (horigin : (Resolver.ofTemplate t).origin? name = some origin) : origin ∉ position.accepts := by
  intro hmem
  apply h
  cases position with
  | condition =>
    -- the one origin that is accepted here is also how the name is declared
    cases List.mem_singleton.1 hmem
    exact Resolver.isCondition_ofTemplate_iff.2 (Resolver.declaresAs_of_origin? horigin)
  | ref => exact ⟨origin, hmem, horigin⟩
  | getAtt =>
    cases List.mem_singleton.1 hmem
    exact horigin
  | subAttribute =>
    cases List.mem_singleton.1 hmem
    exact horigin
  | subVariable => exact ⟨origin, hmem, horigin⟩

end Position

/-- What a variable of a substitution string uses. -/
inductive VariableUses (var : String) : Position → String → Prop
  /-- The part before the first point, if there is one. -/
  | attribute (resource attr : String) (hstart : ¬ "AWS::".toList <+: var.toList)
      (hvar : var = resource ++ "." ++ attr) (hpoint : '.' ∉ resource.toList) :
      VariableUses var .subAttribute resource
  | whole (hvar : "AWS::".toList <+: var.toList ∨ '.' ∉ var.toList) :
      VariableUses var .subVariable var

/-- The two forms of the argument of a substitution: a string, or a string with variables. -/
inductive WritesSub (text : String) : List (String × Value) → Value → Prop
  | text : WritesSub text [] (.string text)
  | bound (vars : List (String × Value)) :
      WritesSub text vars (.list [.string text, .object vars])

/-- A value uses a name in a position. -/
inductive Value.Uses : Value → Position → String → Prop
  | condition {name : String} (h : name ≠ "") :
      Uses (.object [("Condition", .string name)]) .condition name
  | ref (name : String) : Uses (.object [("Ref", .string name)]) .ref name
  | getAtt {args : Value} {resource attr : String} (hargs : WritesAttribute resource attr args) :
      Uses (.object [("Fn::GetAtt", args)]) .getAtt resource
  /-- A variable that the substitution does not bind itself. -/
  | sub {args : Value} {text : String} {vars : List (String × Value)}
      {tokens : List (Substitution.Token String)} {var : String} {position : Position}
      {name : String} (hargs : WritesSub text vars args)
      (htokens : Substitution.scanString text = .ok tokens)
      (hvar : var ∈ Substitution.variableNames tokens) (hfree : var ∉ vars.map Prod.fst)
      (huse : VariableUses var position name) : Uses (.object [("Fn::Sub", args)]) position name
  | boundTo {args : Value} {text : String} {vars : List (String × Value)} {var : String × Value}
      {position : Position} {name : String} (hargs : WritesSub text vars args)
      (hmem : var ∈ vars) (h : Uses var.2 position name) :
      Uses (.object [("Fn::Sub", args)]) position name
  | argument {fn : String} {args : Value} {position : Position} {name : String}
      (hfn : FunctionKey fn) (hother : fn ≠ "Ref" ∧ fn ≠ "Fn::GetAtt" ∧ fn ≠ "Fn::Sub")
      (h : Uses args position name) : Uses (.object [(fn, args)]) position name
  | item {items : List Value} {item : Value} {position : Position} {name : String}
      (hmem : item ∈ items) (h : Uses item position name) : Uses (.list items) position name
  | field {fields : List (String × Value)} {field : String × Value} {position : Position}
      {name : String} (hdata : ∀ key arg, fields = [(key, arg)] → ¬ FunctionKey key)
      (hmem : field ∈ fields) (h : Uses field.2 position name) :
      Uses (.object fields) position name

/-- An output uses a name: as its condition, or in its value or the name of its export. -/
inductive Output.Uses (o : Output) : Position → String → Prop
  | condition (h : o.condition ≠ "") : Uses o .condition o.condition
  | value {position : Position} {name : String} (h : o.value.Uses position name) :
      Uses o position name
  | exportName {position : Position} {name : String} (h : o.exportName.Uses position name) :
      Uses o position name

/-! ## Reports -/

/-- A name is refused in a position, and so it is reported. -/
structure Unresolved.RefusedAt (u : Unresolved) (refs : Resolver) (position : Position) : Prop where
  intrinsic : u.intrinsic = position.intrinsic
  origin : u.origin = refs.origin? u.name
  refused : ¬ position.Allows refs u.name

namespace Ir

/-- Every name that a failure reports is used and refused in the same position. -/
def ReportsUses (refs : Resolver) (uses : Position → String → Prop) (failure : Failure) : Prop :=
  ∀ u, Cause.assembly (.unresolved u) ∈ failure.causes →
    ∃ position, uses position u.name ∧ u.RefusedAt refs position

variable {refs : Resolver} {uses uses' : Position → String → Prop}

theorem reportsUses_mono {α : Type} {x : Except Failure α}
    (h : FailsOnly (ReportsUses refs uses) x)
    (huses : ∀ position name, uses position name → uses' position name) :
    FailsOnly (ReportsUses refs uses') x := by
  intro failure hx u hu
  obtain ⟨position, huse, hrefused⟩ := h failure hx u hu
  exact ⟨position, huses position u.name huse, hrefused⟩

/-- A note hides no report and adds none. -/
theorem reportsUses_noting {α : Type} {x : Except Failure α}
    (h : FailsOnly (ReportsUses refs uses) x) (note : String) :
    FailsOnly (ReportsUses refs uses) (noting note x) :=
  h.mapError fun _ hinner => hinner

/-- Other faults report no name. -/
theorem reportsUses_of_ne {fault : Fault} (h : ∀ u, fault ≠ .unresolved u) :
    ReportsUses refs uses (.assembly fault) := by
  intro u hu
  cases List.mem_singleton.1 hu
  exact absurd rfl (h u)

theorem reportsUses_malformed {α : Type} (argument : Malformed) :
    FailsOnly (ReportsUses refs uses) (malformed argument : Except Failure α) :=
  .error (reportsUses_of_ne fun _ h => by cases h)

/-! ### Checks of names -/

theorem reportsUses_unresolved {α : Type} (position : Position) {name : String}
    (huse : uses position name) (hrefused : ¬ position.Allows refs name) :
    FailsOnly (ReportsUses refs uses)
      (unresolved name position.intrinsic (refs.origin? name) : Except Failure α) := by
  refine .error fun u hu => ?_
  cases List.mem_singleton.1 hu
  exact ⟨position, huse, rfl, rfl, hrefused⟩

theorem reportsUses_checkCondition {name : String} (huse : name ≠ "" → uses .condition name) :
    FailsOnly (ReportsUses refs uses) (checkCondition refs name) := by
  unfold checkCondition
  split
  · exact .ok ()
  · rename_i h
    rw [Bool.or_eq_true, not_or, decide_eq_true_eq] at h
    exact reportsUses_unresolved .condition (huse h.1) h.2

theorem reportsUses_checkResource (position : Position) {name : String}
    (hallows : position.Allows refs name → refs.origin? name = some .resource)
    (huse : uses position name) :
    FailsOnly (ReportsUses refs uses) (checkResource refs name position.intrinsic) := by
  unfold checkResource
  split
  · exact .ok ()
  · rename_i hother
    exact reportsUses_unresolved position huse fun h => hother (hallows h)

theorem reportsUses_checkReferable (position : Position) {name : String}
    (hallows : position.Allows refs name → Referable refs name) (huse : uses position name) :
    FailsOnly (ReportsUses refs uses) (checkReferable refs name position.intrinsic) := by
  -- a name of any other origin is reported the same way as one of none, so this is said once
  have hunresolved (hrefused : ¬ Referable refs name) :
      FailsOnly (ReportsUses refs uses)
        (unresolved name position.intrinsic (refs.origin? name) : Except Failure Origin) :=
    reportsUses_unresolved position huse fun h => hrefused (hallows h)
  rw [referable_iff] at hunresolved
  unfold checkReferable
  split
  · rename_i origin horigin
    split
    · exact .ok origin
    · rename_i hother
      rw [horigin] at hunresolved
      apply hunresolved
      rintro ⟨origin', heq, hreferable⟩
      cases heq
      exact hother hreferable
  · rename_i horigin
    rw [horigin] at hunresolved
    exact hunresolved (by simp)

/-! ### Variables -/

theorem variableUses_of_attributeResource?_eq_some {var resource : String}
    (h : Substitution.attributeResource? var = some resource) :
    VariableUses var .subAttribute resource := by
  obtain ⟨hstart, attr, hvar, hresource⟩ :=
    Substitution.attributeResource?_eq_some_iff_append.1 h
  exact .attribute resource attr hstart hvar hresource

theorem variableUses_of_attributeResource?_eq_none {var : String}
    (h : Substitution.attributeResource? var = none) : VariableUses var .subVariable var :=
  .whole (Substitution.attributeResource?_eq_none_iff_notMem.1 h)

theorem reportsUses_checkVariable {bound : List String} {var : String}
    (huses : var ∉ bound → ∀ position name, VariableUses var position name → uses position name) :
    FailsOnly (ReportsUses refs uses) (checkVariable refs bound var) := by
  unfold checkVariable
  split
  · exact .ok ()
  · rename_i hfree
    split
    · rename_i resource hattribute
      have huse := variableUses_of_attributeResource?_eq_some hattribute
      exact reportsUses_checkResource .subAttribute id (huses hfree _ _ huse)
    · rename_i hattribute
      have huse := variableUses_of_attributeResource?_eq_none hattribute
      exact (reportsUses_checkReferable .subVariable id (huses hfree _ _ huse)).map

theorem reportsUses_checkVariables {bound vars : List String}
    (huses : ∀ var ∈ vars, var ∉ bound →
      ∀ position name, VariableUses var position name → uses position name) :
    FailsOnly (ReportsUses refs uses) (checkVariables refs bound vars) := by
  induction vars with
  | nil => exact .ok ()
  | cons var rest ih =>
    obtain ⟨hvar, hrest⟩ := List.forall_mem_cons.1 huses
    rw [checkVariables]
    exact (reportsUses_checkVariable hvar).bind fun _ _ => ih hrest

/-! ### Functions -/

theorem reportsUses_lowerRef (args : Value) :
    FailsOnly (ReportsUses refs (Value.Uses (.object [("Ref", args)]))) (lowerRef refs args) := by
  unfold lowerRef
  split
  · rename_i name
    exact (reportsUses_checkReferable .ref id (.ref name)).map
  · exact reportsUses_malformed _

theorem reportsUses_lowerGetAtt (args : Value) :
    FailsOnly (ReportsUses refs (Value.Uses (.object [("Fn::GetAtt", args)])))
      (lowerGetAtt refs args) := by
  unfold lowerGetAtt
  split
  rename_i resource attr hparts
  split
  · exact reportsUses_malformed _
  · rename_i h
    rw [Bool.or_eq_true, not_or, decide_eq_true_eq, decide_eq_true_eq] at h
    have hargs := (attributeParts_eq_iff h.1 h.2).1 hparts
    exact (reportsUses_checkResource .getAtt id (.getAtt hargs)).map

/-- The variables are checked against the keys under which their values are given. -/
theorem reportsUses_lowerSub {args : Value} {text : String} {vars : List (String × Value)}
    {bound : Except Failure (List (String × Expr))} (hargs : WritesSub text vars args)
    (hbound : FailsOnly (ReportsUses refs (Value.Uses (.object [("Fn::Sub", args)]))) bound)
    (hkeys : ∀ es, bound = .ok es → es.map Prod.fst = vars.map Prod.fst) :
    FailsOnly (ReportsUses refs (Value.Uses (.object [("Fn::Sub", args)])))
      (lowerSub refs text bound) := by
  unfold lowerSub
  refine FailsOnly.bind ?_ fun tokens htokens => ?_
  · -- a placeholder that is left open is another fault
    refine reportsUses_noting (fun failure h => ?_) _
    obtain ⟨placeholder, -, rfl⟩ := mapError_eq_error_iff.1 h
    exact reportsUses_of_ne fun _ h => by cases h
  refine hbound.bind fun es hes => ?_
  refine FailsOnly.bind ?_ fun _ _ => .ok _
  -- the expressions keep the keys of the map, so a variable is free of both or of neither
  rw [hkeys es hes]
  apply reportsUses_checkVariables
  intro var hvar hfree position name huse
  exact .sub hargs (tokensOf_eq_ok_iff.1 (noting_eq_ok_iff.1 htokens)) hvar hfree huse

/-! ### Values -/

/-- One of the values of some items uses a name. -/
def UsesIn {ι : Type} (valueOf : ι → Value) (items : List ι) (position : Position) (name : String) :
    Prop :=
  ∃ item ∈ items, (valueOf item).Uses position name

/-- Items are lowered one after the other, each with a note on its place. -/
theorem reportsUses_cons {ι α β γ : Type} (valueOf : ι → Value) (first : ι) {rest : List ι}
    {x : Except Failure α} {y : Except Failure β} {f : α → β → γ} (note : String)
    (hx : FailsOnly (ReportsUses refs (valueOf first).Uses) x)
    (hy : FailsOnly (ReportsUses refs (UsesIn valueOf rest)) y) :
    FailsOnly (ReportsUses refs (UsesIn valueOf (first :: rest)))
      (noting note x >>= fun a => y >>= fun b => pure (f a b)) := by
  refine FailsOnly.bind ?_ fun a _ => FailsOnly.bind ?_ fun b _ => .ok _
  · refine reportsUses_mono (reportsUses_noting hx note) ?_
    intro position name huse
    exact ⟨first, List.mem_cons_self, huse⟩
  · refine reportsUses_mono hy ?_
    rintro position name ⟨item, hmem, huse⟩
    exact ⟨item, List.mem_cons_of_mem first hmem, huse⟩

/-- The fields of an object are all visited, unless it is a function. -/
theorem reportsUses_of_fields {α : Type} {x : Except Failure α} {fields : List (String × Value)}
    (hdata : ∀ key arg, fields = [(key, arg)] → ¬ FunctionKey key)
    (h : FailsOnly (ReportsUses refs (UsesIn Prod.snd fields)) x) :
    FailsOnly (ReportsUses refs (Value.Uses (.object fields))) x := by
  refine reportsUses_mono h ?_
  rintro position name ⟨field, hmem, huse⟩
  exact .field hdata hmem huse

mutual

/-- Whatever names the failure of a value reports, the value uses them so and they are
    refused. -/
theorem reportsUses_lower (v : Value) : FailsOnly (ReportsUses refs v.Uses) (lower refs v) := by
  match v with
  | .string s =>
    unfold lower
    exact .ok _
  | .prim p =>
    unfold lower
    exact .ok _
  | .foreign f =>
    unfold lower
    exact reportsUses_malformed _
  | .list items =>
    unfold lower
    refine reportsUses_mono (reportsUses_lowerItems 0 items).map ?_
    rintro position name ⟨item, hmem, huse⟩
    exact .item hmem huse
  | .object [] =>
    unfold lower
    refine reportsUses_of_fields ?_ (reportsUses_lowerFields []).map
    intro key arg hfields
    cases hfields
  | .object (first :: second :: rest) =>
    unfold lower
    refine reportsUses_of_fields ?_ (reportsUses_lowerFields (first :: second :: rest)).map
    intro key arg hfields
    cases hfields
  | .object [(fn, args)] =>
    -- the fields that lowering treats as functions come one by one; each is a case of its own
    have hargs : FailsOnly (ReportsUses refs args.Uses) (noting fn (lower refs args)) :=
      reportsUses_noting (reportsUses_lower args) fn
    unfold lower
    dsimp only
    split
    · rename_i hfn
      subst hfn
      exact reportsUses_lowerRef args
    split
    · rename_i hfn
      subst hfn
      exact reportsUses_lowerGetAtt args
    split
    · rename_i hfn
      subst hfn
      split
      · refine reportsUses_lowerSub .text (.ok _) ?_
        intro es hes
        cases hes
        rfl
      · rename_i text vars
        refine reportsUses_lowerSub (.bound vars) ?_ ?_
        · refine reportsUses_mono (reportsUses_lowerBound vars) ?_
          rintro position name ⟨var, hmem, huse⟩
          exact .boundTo (.bound vars) hmem huse
        · intro es hes
          exact (lowersFields_of_lowerBound vars hes).map_fst
      · exact reportsUses_malformed _
    -- what is left is another function, or data
    rename_i href hgetAtt hsub
    split
    · rename_i hfn
      have hargument := reportsUses_mono hargs fun position name huse =>
        Value.Uses.argument (isIntrinsic_iff.1 hfn) ⟨href, hgetAtt, hsub⟩ huse
      split
      · rename_i hcondition
        subst hcondition
        refine FailsOnly.bind ?_ fun _ _ => hargument.map
        -- an argument that is no string counts as the empty name, which is never refused
        apply reportsUses_checkCondition
        intro hname
        rw [eq_string_of_getD (v := args) rfl hname]
        exact .condition hname
      · exact hargument.map
    · rename_i hfn
      refine reportsUses_of_fields ?_ (reportsUses_mono hargs ?_).map
      · intro key arg hfields
        cases hfields
        rwa [← isIntrinsic_iff]
      · intro position name huse
        exact ⟨(fn, args), List.mem_singleton_self _, huse⟩

theorem reportsUses_lowerItems (position : Nat) (items : List Value) :
    FailsOnly (ReportsUses refs (UsesIn id items)) (lowerItems refs position items) := by
  match items with
  | [] =>
    unfold lowerItems
    exact .ok _
  | v :: vs =>
    unfold lowerItems
    exact reportsUses_cons id v _ (reportsUses_lower v) (reportsUses_lowerItems (position + 1) vs)

theorem reportsUses_lowerFields (fields : List (String × Value)) :
    FailsOnly (ReportsUses refs (UsesIn Prod.snd fields)) (lowerFields refs fields) := by
  match fields with
  | [] =>
    unfold lowerFields
    exact .ok _
  | (key, v) :: rest =>
    unfold lowerFields
    exact reportsUses_cons Prod.snd (key, v) _ (reportsUses_lower v) (reportsUses_lowerFields rest)

theorem reportsUses_lowerBound (vars : List (String × Value)) :
    FailsOnly (ReportsUses refs (UsesIn Prod.snd vars)) (lowerBound refs vars) := by
  match vars with
  | [] =>
    unfold lowerBound
    exact .ok _
  | (var, v) :: rest =>
    unfold lowerBound
    exact reportsUses_cons Prod.snd (var, v) _ (reportsUses_lower v) (reportsUses_lowerBound rest)

end

/-! ### Outputs -/

theorem reportsUses_lowerOutput (key : String) (o : Output) :
    FailsOnly (ReportsUses refs o.Uses) (lowerOutput refs key o) := by
  unfold lowerOutput
  refine (reportsUses_checkCondition .condition).bind fun _ _ => ?_
  refine FailsOnly.bind ?_ fun value _ => FailsOnly.bind ?_ fun exported _ => .ok _
  · exact reportsUses_mono (reportsUses_lower o.value) fun _ _ huse => .value huse
  · unfold lowerExport
    split
    · exact .ok none
    · refine FailsOnly.map (reportsUses_noting ?_ _)
      exact reportsUses_mono (reportsUses_lower o.exportName) fun _ _ huse => .exportName huse

/-- The outputs are lowered one after the other up to one that fails. -/
theorem lowerOutputList_eq_error {entries : List (String × Output)} {failure : Failure}
    (h : lowerOutputList refs entries = .error failure) :
    ∃ before key o after inner, entries = before ++ (key, o) :: after ∧
      (∀ entry ∈ before, ∃ out, lowerOutput refs entry.1 entry.2 = .ok out) ∧
      lowerOutput refs key o = .error inner ∧
      failure = .context ("output " ++ Text.quote key) inner := by
  induction entries with
  | nil => cases h
  | cons entry rest ih =>
    obtain ⟨key, o⟩ := entry
    unfold lowerOutputList at h
    rcases bind_eq_error_iff.1 h with hfirst | ⟨out, hout, h⟩
    · obtain ⟨inner, hinner, rfl⟩ := noting_eq_error_iff.1 hfirst
      exact ⟨[], key, o, rest, inner, rfl, by simp, hinner, rfl⟩
    · rcases bind_eq_error_iff.1 h with hrest | ⟨outs, -, h⟩
      · obtain ⟨before, key', o', after, inner, rfl, hbefore, hfails⟩ := ih hrest
        refine ⟨(key, o) :: before, key', o', after, inner, rfl, ?_, hfails⟩
        exact List.forall_mem_cons.2 ⟨⟨out, noting_eq_ok_iff.1 hout⟩, hbefore⟩
      · cases h

end Ir

/-! ## True reports -/

/-- A name that is refused has the number of no origin only if it is declared nowhere. -/
theorem Unresolved.RefusedAt.originNumber_eq_zero_iff {u : Unresolved} {t : Template}
    {position : Position} (h : u.RefusedAt (.ofTemplate t) position) :
    u.originNumber = 0 ↔ t.Undeclared u.name := by
  rw [← Resolver.origin?_ofTemplate_eq_none_iff, ← h.origin, Unresolved.originNumber]
  cases horigin : u.origin with
  | none => simp
  | some origin =>
    -- every kind of declaration has a number of its own
    have hdeclared := Resolver.declaresAs_of_origin? (h.origin.symm.trans horigin)
    cases origin with
    | parameter => simp [Origin.number]
    | resource => simp [Origin.number]
    | pseudoParameter => simp [Origin.number]
    | condition => simp [Origin.number]
    | mapping => simp [Origin.number]
    | other number => exact hdeclared.elim

/-- What the report of a name says is true of an output of a template. -/
structure Unresolved.TrueOf (u : Unresolved) (t : Template) (o : Output) : Prop where
  /-- The output uses the name through the function, where its origin is not accepted. -/
  used : ∃ position, o.Uses position u.name ∧ u.intrinsic = position.intrinsic ∧
    ∀ origin, u.origin = some origin → origin ∉ position.accepts
  origin : u.origin = (Resolver.ofTemplate t).origin? u.name
  undeclared : u.originNumber = 0 ↔ t.Undeclared u.name

theorem Unresolved.RefusedAt.trueOf {u : Unresolved} {t : Template} {o : Output}
    {position : Position} (h : u.RefusedAt (.ofTemplate t) position)
    (huse : o.Uses position u.name) : u.TrueOf t o where
  used := by
    refine ⟨position, huse, h.intrinsic, fun origin horigin => ?_⟩
    exact Position.not_mem_accepts h.refused (h.origin.symm.trans horigin)
  origin := h.origin
  undeclared := h.originNumber_eq_zero_iff

namespace Ir

/-- If the outputs of a template cannot be lowered and the failure reports a name, then the
    report is true of the first output that cannot be lowered, the one the failure names. -/
theorem trueOf_of_lowerOutputs {t : Template} {failure : Failure} {u : Unresolved}
    (h : lowerOutputs (.ofTemplate t) t.outputs = .error failure)
    (hu : Cause.assembly (.unresolved u) ∈ failure.causes) :
    ∃ before key o after inner, Section.entries t.outputs = before ++ (key, o) :: after ∧
      (∀ entry ∈ before, ∃ out, lowerOutput (.ofTemplate t) entry.1 entry.2 = .ok out) ∧
      lowerOutput (.ofTemplate t) key o = .error inner ∧
      failure = .context ("output " ++ Text.quote key) inner ∧ u.TrueOf t o := by
  cases houtputs : t.outputs with
  | none =>
    rw [houtputs] at h
    cases h
  | some outputs =>
    rw [houtputs] at h
    obtain ⟨before, key, o, after, inner, hentries, hbefore, hfails, rfl⟩ :=
      lowerOutputList_eq_error (map_eq_error_iff.1 h)
    obtain ⟨position, huse, hrefused⟩ := reportsUses_lowerOutput key o inner hfails u hu
    exact ⟨before, key, o, after, inner, hentries, hbefore, hfails, rfl, hrefused.trueOf huse⟩

/-- An output that substitutes an attribute of a parameter, and a variable of its own with a
    name that nothing declares. -/
def stageLink : Template where
  parameters := some (.ofList [("Stage", {})])
  resources := some (.ofList [("Queue", { type := "AWS::SQS::Queue" })])
  outputs := some (.ofList [
    ("Name", { value := .object [("Ref", .string "Queue")] }),
    ("Link", { value := .list [.object [("Fn::Sub", .list [
      .string "$\x7bTopic\x7d/$\x7bStage.Url\x7d", .object [("Topic", .string "news")]])]] })])

/-- The parameter has no attributes. -/
def stageReport : Unresolved :=
  ⟨"Stage", "Fn::Sub", some .parameter⟩

theorem trueOf_of_lowerOutputs_stageLink :
    ∃ failure before key o after inner,
      lowerOutputs (.ofTemplate stageLink) stageLink.outputs = .error failure ∧
      failure.message = "output \"Link\": [0]: " ++ stageReport.message ∧
      Section.entries stageLink.outputs = before ++ (key, o) :: after ∧
      (∀ entry ∈ before,
        ∃ out, lowerOutput (.ofTemplate stageLink) entry.1 entry.2 = .ok out) ∧
      lowerOutput (.ofTemplate stageLink) key o = .error inner ∧
      failure = .context ("output " ++ Text.quote key) inner ∧ stageReport.TrueOf stageLink o := by
  have heval : (match lowerOutputs (.ofTemplate stageLink) stageLink.outputs with
      | .ok _ => none
      | .error failure => some (failure.causes, failure.message)) =
      some ([Cause.assembly (.unresolved stageReport)],
        "output \"Link\": [0]: " ++ stageReport.message) := by
    decide +kernel
  cases h : lowerOutputs (.ofTemplate stageLink) stageLink.outputs with
  | ok outs =>
    rw [h] at heval
    cases heval
  | error failure =>
    rw [h] at heval
    obtain ⟨hcauses, hmessage⟩ := Prod.mk.inj (Option.some.inj heval)
    have hreport : Cause.assembly (.unresolved stageReport) ∈ failure.causes := by
      rw [hcauses]
      exact List.mem_singleton_self _
    obtain ⟨before, key, o, after, inner, htrue⟩ := trueOf_of_lowerOutputs h hreport
    exact ⟨failure, before, key, o, after, inner, rfl, hmessage, htrue⟩

end Ir

end StackIr

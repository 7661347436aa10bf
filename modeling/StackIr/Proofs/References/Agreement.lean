import StackIr.Ir.References
import StackIr.Proofs.Lowering.Parts

/-! # Two ways to find references

    A value that can be lowered has its references in its expression, and `references` finds
    them in the value itself.  The two agree, except where a substitution string binds a
    single variable that is named like a function: `references` enters the variables of a
    string as it enters any object, and takes that variable for a call. -/

namespace StackIr.Ir

open Substitution (attributeResource? variableNames)

/-! ## Resources of an expression -/

namespace Expr

/-- The names that an expression refers to by itself. -/
def ownNames : Expr → List String
  | .ref name _ => [name]
  | .getAtt resource _ => [resource]
  | .sub tokens bound =>
    ((variableNames tokens).filter (· ∉ bound.map Prod.fst)).map fun name =>
      (attributeResource? name).getD name
  | _ => []

/-- The resources that some expressions refer to by themselves. -/
def resourcesOf (refs : Resolver) (parts : List Expr) : List String :=
  (parts.flatMap ownNames).filter fun name => refs.origin? name = some .resource

/-- The resources that an expression refers to, at any depth. -/
def resources (refs : Resolver) (e : Expr) : List String :=
  resourcesOf refs e.parts

end Expr

/-! ## Maps that are taken for calls -/

/-- Whether an object has the form of a function that `references` knows. -/
def readsAsCall {α : Type} : List (String × α) → Bool
  | [(key, _)] => key = "Ref" || key = "Fn::GetAtt" || key = "Fn::Sub"
  | _ => false

mutual

/-- The outermost variables of substitution strings in a value that have the form of a
    call. -/
def calledMaps : Value → List (List (String × Value))
  | .list items => calledMapsOfItems items
  | .object [(fn, arg)] => if fn = "Fn::Sub" then calledMapsOfSub arg else calledMaps arg
  | .object fields => calledMapsOfFields fields
  | _ => []

/-- Those in the argument of a substitution. -/
def calledMapsOfSub : Value → List (List (String × Value))
  | .list [.string _, .object vars] =>
    if readsAsCall vars then [vars] else calledMapsOfFields vars
  | _ => []

def calledMapsOfItems : List Value → List (List (String × Value))
  | [] => []
  | v :: vs => calledMaps v ++ calledMapsOfItems vs

def calledMapsOfFields : List (String × Value) → List (List (String × Value))
  | [] => []
  | (_, v) :: rest => calledMaps v ++ calledMapsOfFields rest

end

/-- The resources that an expression refers to outside such variables. -/
def Expr.outerResources (refs : Resolver) (e : Expr) : List String :=
  resourcesOf refs (e.partsWhere fun bound => !readsAsCall bound)

/-- `references` finds a name in variables that it takes for a call. -/
def RecordedIn (refs : Resolver) (vars : List (String × Value)) (name : String) : Prop :=
  ∃ found, references refs (.object vars) = .ok found ∧ name ∈ found

/-- The values of variables refer to a name. -/
def ReferredIn (refs : Resolver) (vars : List (String × Value)) (name : String) : Prop :=
  ∃ key v e, (key, v) ∈ vars ∧ lower refs v = .ok e ∧ name ∈ e.resources refs

/-- The references that are found in a value are the resources of its expression. -/
def Agrees (refs : Resolver) (v : Value) (e : Expr) : Prop :=
  ∃ found, references refs v = .ok found ∧ ∀ name, name ∈ found ↔ name ∈ e.resources refs

variable {refs : Resolver}

/-! ## Accounts

    An account of a search relates its outcome to the maps that it takes for calls: it
    succeeds if it succeeds on them, and it finds what stands outside of them and what it
    finds in them; whereas the resources are those outside and those that they refer to. -/

structure Account (refs : Resolver) (outcome : Except Failure (List String))
    (maps : List (List (String × Value))) (outer all : List String) : Prop where
  succeeds : (∃ found, outcome = .ok found) ↔
    ∀ vars ∈ maps, ∃ found, references refs (.object vars) = .ok found
  recorded : ∀ found, outcome = .ok found → ∀ name,
    name ∈ found ↔ name ∈ outer ∨ ∃ vars ∈ maps, RecordedIn refs vars name
  referred : ∀ name, name ∈ all ↔ name ∈ outer ∨ ∃ vars ∈ maps, ReferredIn refs vars name

namespace Account

/-- A search that finds the resources themselves. -/
theorem ofFound (found : List String) : Account refs (.ok found) [] found found := by
  -- nothing is taken for a call, so the search is its own account
  refine ⟨by simp, ?_, by simp⟩
  intro found' h name
  cases h
  simp

/-- One search after the other. -/
theorem append {first second : Except Failure (List String)}
    {maps maps' : List (List (String × Value))} {outer outer' all all' : List String}
    (h : Account refs first maps outer all) (h' : Account refs second maps' outer' all') :
    Account refs (do let found ← first; let more ← second; pure (found ++ more))
      (maps ++ maps') (outer ++ outer') (all ++ all') := by
  refine ⟨?_, ?_, ?_⟩
  · -- the maps of both searches have to be searched, those of the first one first
    rw [List.forall_mem_append, ← h.succeeds, ← h'.succeeds]
    constructor
    · intro ⟨_, hboth⟩
      obtain ⟨found, hfirst, hrest⟩ := bind_eq_ok_iff.1 hboth
      obtain ⟨more, hsecond, -⟩ := bind_eq_ok_iff.1 hrest
      exact ⟨⟨found, hfirst⟩, more, hsecond⟩
    · intro ⟨⟨found, hfirst⟩, more, hsecond⟩
      exact ⟨found ++ more, bind_eq_ok_iff.2 ⟨found, hfirst, bind_eq_ok_iff.2 ⟨more, hsecond, rfl⟩⟩⟩
  · intro both hboth name
    obtain ⟨found, hfirst, hrest⟩ := bind_eq_ok_iff.1 hboth
    obtain ⟨more, hsecond, hpure⟩ := bind_eq_ok_iff.1 hrest
    cases hpure
    simp only [List.mem_append, h.recorded found hfirst name, h'.recorded more hsecond name,
      or_and_right, exists_or]
    exact or_or_or_comm
  · intro name
    simp only [List.mem_append, h.referred name, h'.referred name, or_and_right, exists_or]
    exact or_or_or_comm

/-- The lists of an account matter up to their members. -/
theorem congr {outcome : Except Failure (List String)} {maps : List (List (String × Value))}
    {outer outer' all all' : List String} (h : Account refs outcome maps outer all)
    (houter : ∀ name, name ∈ outer' ↔ name ∈ outer) (hall : ∀ name, name ∈ all' ↔ name ∈ all) :
    Account refs outcome maps outer' all' := by
  refine ⟨h.succeeds, ?_, ?_⟩
  · intro found hfound name
    rw [houter, h.recorded found hfound name]
  · intro name
    rw [houter, hall, h.referred name]

/-- A search finds the resources exactly if it succeeds on the maps, and what it finds in them
    and nowhere else is what they refer to. -/
theorem agrees_iff {outcome : Except Failure (List String)} {maps : List (List (String × Value))}
    {outer all : List String} (h : Account refs outcome maps outer all) :
    (∃ found, outcome = .ok found ∧ ∀ name, name ∈ found ↔ name ∈ all) ↔
      (∀ vars ∈ maps, ∃ found, references refs (.object vars) = .ok found) ∧
        ∀ name, name ∉ outer →
          ((∃ vars ∈ maps, RecordedIn refs vars name) ↔ ∃ vars ∈ maps, ReferredIn refs vars name) := by
  constructor
  · intro ⟨found, hfound, hsame⟩
    refine ⟨h.succeeds.1 ⟨found, hfound⟩, ?_⟩
    intro name houter
    have hrecorded := h.recorded found hfound name
    rw [hsame name, h.referred name] at hrecorded
    simpa [houter] using hrecorded.symm
  · intro ⟨hsearched, hsame⟩
    obtain ⟨found, hfound⟩ := h.succeeds.2 hsearched
    refine ⟨found, hfound, ?_⟩
    intro name
    -- a name that stands outside of the maps is in both, whatever they hold
    rw [h.recorded found hfound name, h.referred name]
    by_cases houter : name ∈ outer
    · simp [houter]
    · rw [hsame name houter]

end Account

/-! ## Parts and their resources -/

@[simp] theorem resourcesOf_append (parts more : List Expr) :
    Expr.resourcesOf refs (parts ++ more) =
      Expr.resourcesOf refs parts ++ Expr.resourcesOf refs more := by
  simp [Expr.resourcesOf]

theorem resourcesOf_singleton {part : Expr} {name : String} (h : part.ownNames = [name]) :
    Expr.resourcesOf refs [part] = resourceName refs name := by
  by_cases horigin : refs.origin? name = some .resource
  · simp [Expr.resourcesOf, resourceName, h, horigin]
  · simp [Expr.resourcesOf, resourceName, h, horigin]

/-- The variables of a substitution string refer to the same names in both. -/
theorem resourcesOf_sub (tokens : List (Substitution.Token String)) (bound : List (String × Expr)) :
    Expr.resourcesOf refs [.sub tokens bound] =
      (variableNames tokens).flatMap (variableReferences refs (bound.map Prod.fst)) := by
  rw [Expr.resourcesOf, List.flatMap_singleton, Expr.ownNames]
  induction variableNames tokens with
  | nil => rfl
  | cons name names ih =>
    -- a variable that is bound refers to nothing, any other to one name at most
    rw [List.flatMap_cons, ← ih, variableReferences, resourceName]
    by_cases hbound : name ∈ bound.map Prod.fst
    · simp [hbound]
    · by_cases horigin : refs.origin? ((attributeResource? name).getD name) = some .resource
      · simp [hbound, horigin]
      · simp [hbound, horigin]

theorem LowersFields.readsAsCall_eq {fields : List (String × Value)} {es : List (String × Expr)}
    (h : LowersFields refs fields es) : readsAsCall es = readsAsCall fields := by
  match h with
  | .nil => rfl
  | .cons _ .nil => rfl
  | .cons _ (.cons _ _) => rfl

theorem LowersFields.mem_resourcesOf_iff {fields : List (String × Value)}
    {es : List (String × Expr)} (h : LowersFields refs fields es) (name : String) :
    name ∈ Expr.resourcesOf refs (Expr.partsOfFields (fun _ => true) es) ↔
      ReferredIn refs fields name := by
  induction fields generalizing es with
  | nil =>
    cases h
    simp [Expr.partsOfFields, Expr.resourcesOf, ReferredIn]
  | cons field rest ih =>
    cases h with
    | @cons key v e _ es hv hs =>
      rw [Expr.partsOfFields, resourcesOf_append, List.mem_append, ih hs]
      have hlower : lower refs v = .ok e := lower_eq_ok_iff.2 hv
      constructor
      · rintro (hhead | ⟨key', v', e', hmem, hlower', hname⟩)
        · exact ⟨key, v, e, List.mem_cons_self .., hlower, hhead⟩
        · exact ⟨key', v', e', List.mem_cons_of_mem _ hmem, hlower', hname⟩
      · rintro ⟨key', v', e', hmem, hlower', hname⟩
        -- the value of a field is lowered in one way only
        rcases List.mem_cons.1 hmem with heq | hrest
        · cases heq
          rw [hlower] at hlower'
          cases hlower'
          exact Or.inl hname
        · exact Or.inr ⟨key', v', e', hrest, hlower', hname⟩

/-! ## Objects -/

/-- Whether an object of one field is taken for a call. -/
theorem readsAsCall_singleton_iff {α : Type} {key : String} {arg : α} :
    readsAsCall [(key, arg)] = false ↔ key ≠ "Ref" ∧ key ≠ "Fn::GetAtt" ∧ key ≠ "Fn::Sub" := by
  simp [readsAsCall, and_assoc]

theorem references_singleton {key : String} {arg : Value}
    (h : key ≠ "Ref" ∧ key ≠ "Fn::GetAtt" ∧ key ≠ "Fn::Sub") :
    references refs (.object [(key, arg)]) = references refs arg := by
  rw [references.eq_def]
  dsimp only
  rw [if_neg h.1, if_neg h.2.1, if_neg h.2.2]

theorem calledMaps_singleton {key : String} {arg : Value} (h : key ≠ "Fn::Sub") :
    calledMaps (.object [(key, arg)]) = calledMaps arg := by
  rw [calledMaps.eq_def]
  dsimp only
  rw [if_neg h]

/-- An object that is not taken for a call is searched field by field. -/
theorem references_object {fields : List (String × Value)} (h : readsAsCall fields = false) :
    references refs (.object fields) = referencesOfFields refs fields := by
  match fields with
  | [] => rw [references.eq_def]
  | [(key, arg)] =>
    rw [references_singleton (readsAsCall_singleton_iff.1 h), referencesOfFields, referencesOfFields]
    -- what is found in the only field is followed by the names of no field
    cases references refs arg with
    | error failure => rfl
    | ok found => simp [bind, Except.bind, pure, Except.pure]
  | first :: second :: rest => rw [references.eq_def]

theorem calledMaps_object {fields : List (String × Value)} (h : readsAsCall fields = false) :
    calledMaps (.object fields) = calledMapsOfFields fields := by
  match fields with
  | [] => rw [calledMaps.eq_def]
  | [(key, arg)] =>
    rw [calledMaps_singleton (readsAsCall_singleton_iff.1 h).2.2, calledMapsOfFields,
      calledMapsOfFields, List.append_nil]
  | first :: second :: rest => rw [calledMaps.eq_def]

/-- Data is not taken for a call. -/
theorem IsData.readsAsCall_eq {fields : List (String × Value)} (h : IsData fields) :
    readsAsCall fields = false := by
  match fields with
  | [] => rfl
  | [(key, arg)] => exact readsAsCall_singleton_iff.2 h.ne_of_singleton
  | first :: second :: rest => rfl

/-! ## Functions -/

theorem references_ref (name : String) :
    references refs (.object [("Ref", .string name)]) = .ok (resourceName refs name) := by
  unfold references
  rfl

/-- The argument that names an attribute holds no map, and its resource is found. -/
theorem references_getAtt (refs : Resolver) {args : Value} {resource attr : String}
    (h : attributeParts args = (resource, attr)) (hresource : resource ≠ "") (hattr : attr ≠ "") :
    references refs (.object [("Fn::GetAtt", args)]) = .ok (resourceName refs resource) ∧
      calledMaps args = [] := by
  unfold attributeParts at h
  split at h
  · rename_i s
    rw [references.eq_def, calledMaps.eq_def]
    refine ⟨?_, rfl⟩
    show Except.ok (resourceName refs (Text.cut "." s).1) = _
    rw [h]
  · rename_i first second
    -- neither part is empty, so both items are texts and nothing is searched inside them
    obtain ⟨hfirst, hsecond⟩ := Prod.mk.inj h
    rw [eq_string_of_getD hfirst hresource, eq_string_of_getD hsecond hattr]
    have hattribute : referencesOfItems refs [.string attr] = .ok [] := by
      rw [referencesOfItems, references.eq_def]
      rfl
    refine ⟨?_, ?_⟩
    · unfold references
      show (do
        let more ← referencesOfItems refs [.string attr]
        pure (resourceName refs resource ++ more)) = _
      rw [hattribute]
      show Except.ok (resourceName refs resource ++ []) = _
      rw [List.append_nil]
    · simp [calledMaps, calledMapsOfItems]
  · cases h
    exact absurd rfl hresource

/-- A substitution string finds the resources of its own variables. -/
theorem textReferences_eq {text : String} {tokens : List (Substitution.Token String)}
    (bound : List (String × Expr)) (h : tokensOf text = .ok tokens) :
    textReferences refs text (bound.map Prod.fst) =
      .ok (Expr.resourcesOf refs [.sub tokens bound]) := by
  rw [resourcesOf_sub]
  exact map_eq_ok_iff.2 ⟨tokens, noting_eq_ok_iff.2 h, rfl⟩

theorem references_subText (text : String) :
    references refs (.object [("Fn::Sub", .string text)]) = textReferences refs text [] := by
  unfold references
  rfl

theorem references_subBound (text : String) (vars : List (String × Value)) :
    references refs (.object [("Fn::Sub", .list [.string text, .object vars])]) = (do
      let inVars ← references refs (.object vars)
      let inText ← textReferences refs text (vars.map Prod.fst)
      pure (inVars ++ inText)) := by
  rw [references.eq_def]
  rfl

theorem calledMaps_subBound (text : String) (vars : List (String × Value)) :
    calledMaps (.object [("Fn::Sub", .list [.string text, .object vars])]) =
      if readsAsCall vars then [vars] else calledMapsOfFields vars := by
  rw [calledMaps.eq_def]
  dsimp only
  rw [if_pos rfl, calledMapsOfSub]

/-! ## Accounts of values -/

/-- Variables that are taken for a call. -/
theorem LowersFields.account_of_readsAsCall {vars : List (String × Value)}
    {bound : List (String × Expr)} (h : LowersFields refs vars bound) :
    Account refs (references refs (.object vars)) [vars] (Expr.resourcesOf refs [])
      (Expr.resourcesOf refs (Expr.partsOfFields (fun _ => true) bound)) := by
  refine ⟨by simp, ?_, ?_⟩
  · intro found hfound name
    simp [Expr.resourcesOf, RecordedIn, hfound]
  · intro name
    rw [h.mem_resourcesOf_iff name]
    simp [Expr.resourcesOf]

/-- A substitution string after its variables. -/
theorem Account.sub {text : String} {tokens : List (Substitution.Token String)}
    {bound : List (String × Expr)} {outcome : Except Failure (List String)}
    {maps : List (List (String × Value))} {outer all : List Expr}
    (h : Account refs outcome maps (Expr.resourcesOf refs outer) (Expr.resourcesOf refs all))
    (htokens : tokensOf text = .ok tokens) :
    Account refs
      (do
        let inVars ← outcome
        let inText ← textReferences refs text (bound.map Prod.fst)
        pure (inVars ++ inText))
      maps (Expr.resourcesOf refs (.sub tokens bound :: outer))
      (Expr.resourcesOf refs (.sub tokens bound :: all)) := by
  rw [textReferences_eq bound htokens]
  -- the string comes after its variables in the search and before them in the expression
  have hboth := h.append (Account.ofFound (Expr.resourcesOf refs [.sub tokens bound]))
  rw [List.append_nil] at hboth
  refine hboth.congr ?_ ?_
  · intro name
    rw [← List.singleton_append, resourcesOf_append, List.mem_append, List.mem_append, or_comm]
  · intro name
    rw [← List.singleton_append, resourcesOf_append, List.mem_append, List.mem_append, or_comm]

mutual

theorem Lowers.account {v : Value} {e : Expr} (h : Lowers refs v e) :
    Account refs (references refs v) (calledMaps v) (e.outerResources refs) (e.resources refs) := by
  match h with
  | .string s =>
    unfold references
    exact Account.ofFound []
  | .scalar p =>
    unfold references
    exact Account.ofFound []
  | .list hitems =>
    rw [references.eq_def, calledMaps.eq_def]
    exact hitems.account
  | .object hdata hfields =>
    rw [references_object hdata.readsAsCall_eq, calledMaps_object hdata.readsAsCall_eq]
    exact hfields.account
  | @Lowers.ref _ name origin horigin hreferable =>
    have hown : Expr.resourcesOf refs [.ref name origin] = resourceName refs name :=
      resourcesOf_singleton rfl
    rw [references_ref, calledMaps_singleton (by decide), calledMaps.eq_def, ← hown]
    exact Account.ofFound _
  | @Lowers.getAtt _ args resource attr hparts hresource hattr horigin =>
    have hown : Expr.resourcesOf refs [.getAtt resource attr] = resourceName refs resource :=
      resourcesOf_singleton rfl
    obtain ⟨hfound, hmaps⟩ := references_getAtt refs hparts hresource hattr
    rw [hfound, calledMaps_singleton (by decide), hmaps, ← hown]
    exact Account.ofFound _
  | @Lowers.subText _ text tokens htokens hvariables =>
    have htext : textReferences refs text [] = .ok (Expr.resourcesOf refs [.sub tokens []]) :=
      textReferences_eq [] htokens
    rw [references_subText, htext]
    exact Account.ofFound _
  | @Lowers.subBound _ text vars tokens bound htokens hbound hvariables =>
    rw [references_subBound, calledMaps_subBound, ← hbound.map_fst, Expr.outerResources,
      Expr.resources, Expr.parts, Expr.partsWhere, Expr.partsWhere, hbound.readsAsCall_eq]
    -- the variables are searched as an object: field by field, unless they look like a call
    by_cases hcall : readsAsCall vars = true
    · simp only [hcall]
      exact hbound.account_of_readsAsCall.sub htokens
    · have hdata : readsAsCall vars = false := Bool.eq_false_iff.2 hcall
      rw [references_object hdata]
      simp only [hdata]
      exact hbound.account.sub htokens
  | .intrinsic hfn hother hcondition hargs =>
    rw [references_singleton hother, calledMaps_singleton hother.2.2]
    exact hargs.account

theorem LowersItems.account {items : List Value} {es : List Expr} (h : LowersItems refs items es) :
    Account refs (referencesOfItems refs items) (calledMapsOfItems items)
      (Expr.resourcesOf refs (Expr.partsOfItems (fun bound => !readsAsCall bound) es))
      (Expr.resourcesOf refs (Expr.partsOfItems (fun _ => true) es)) := by
  match h with
  | .nil =>
    unfold referencesOfItems
    exact Account.ofFound []
  | .cons hv hs =>
    rw [referencesOfItems, calledMapsOfItems, Expr.partsOfItems, Expr.partsOfItems,
      resourcesOf_append, resourcesOf_append]
    exact hv.account.append hs.account

theorem LowersFields.account {fields : List (String × Value)} {es : List (String × Expr)}
    (h : LowersFields refs fields es) :
    Account refs (referencesOfFields refs fields) (calledMapsOfFields fields)
      (Expr.resourcesOf refs (Expr.partsOfFields (fun bound => !readsAsCall bound) es))
      (Expr.resourcesOf refs (Expr.partsOfFields (fun _ => true) es)) := by
  match h with
  | .nil =>
    unfold referencesOfFields
    exact Account.ofFound []
  | .cons hv hs =>
    rw [referencesOfFields, calledMapsOfFields, Expr.partsOfFields, Expr.partsOfFields,
      resourcesOf_append, resourcesOf_append]
    exact hv.account.append hs.account

end

/-! ## Agreement -/

/-- The references of a value that can be lowered are the resources of its expression exactly
    if the maps that are taken for calls can be searched, and what is found in them and
    nowhere else is what they refer to.  So they are where there is no such map. -/
theorem agrees_iff_of_lower {v : Value} {e : Expr} (h : lower refs v = .ok e) :
    (Agrees refs v e ↔
      (∀ vars ∈ calledMaps v, ∃ found, references refs (.object vars) = .ok found) ∧
        ∀ name, name ∉ e.outerResources refs →
          ((∃ vars ∈ calledMaps v, RecordedIn refs vars name) ↔
            ∃ vars ∈ calledMaps v, ReferredIn refs vars name)) ∧
      (calledMaps v = [] → Agrees refs v e) := by
  have haccount := (lower_eq_ok_iff.1 h).account
  refine ⟨haccount.agrees_iff, ?_⟩
  intro hnone
  refine haccount.agrees_iff.2 ⟨?_, ?_⟩
  · simp [hnone]
  · simp [hnone]

/-- A resolver that knows one resource. -/
def bucketResolver : Resolver where
  origin? name := if name = "Bucket" then some .resource else none
  isCondition _ := false

/-- A string that binds the variable `Ref` to a text, which is the name of a resource. -/
def boundRef (more : List (String × Value)) : Value :=
  .object [("Fn::Sub", .list
    [ .string "$\x7bRef\x7d", .object (more ++ [("Ref", .string "Bucket")]) ])]

/-- The text of the variable is taken for a reference, unless the string binds another one. -/
theorem agrees_iff_of_lower_boundRef :
    (∃ e, lower bucketResolver (boundRef []) = .ok e ∧
      ¬ Agrees bucketResolver (boundRef []) e) ∧
    ∃ e, lower bucketResolver (boundRef [("Name", .object [("Ref", .string "Bucket")])]) = .ok e ∧
      Agrees bucketResolver (boundRef [("Name", .object [("Ref", .string "Bucket")])]) e := by
  have htokens : tokensOf "$\x7bRef\x7d" = .ok [.var "Ref"] := mapError_eq_ok_iff.2 (by cbv)
  have hbound : ∀ {bound : List String}, "Ref" ∈ bound →
      ∀ name ∈ Substitution.variableNames [Substitution.Token.var "Ref"],
        VariableResolves bucketResolver bound name :=
    fun hmem => List.forall_mem_singleton.2 (.isBound hmem)
  constructor
  · -- `references` finds the bucket in the map, whose only value is a text
    have h : lower bucketResolver (boundRef []) =
        .ok (.sub [.var "Ref"] [("Ref", .string "Bucket")]) :=
      lower_eq_ok_iff.2 (.subBound htokens (.cons (.string _) .nil)
        (hbound (by decide)))
    refine ⟨_, h, ?_⟩
    intro hagrees
    obtain ⟨-, hsame⟩ := (agrees_iff_of_lower h).1.1 hagrees
    have hrecorded : RecordedIn bucketResolver [("Ref", .string "Bucket")] "Bucket" :=
      ⟨["Bucket"], by rfl, by decide⟩
    obtain ⟨vars, hvars, key, v, e, hmem, hlower, hname⟩ :=
      (hsame "Bucket" (by decide)).1 ⟨_, List.mem_singleton.2 rfl, hrecorded⟩
    cases List.mem_singleton.1 hvars
    cases List.mem_singleton.1 hmem
    cases hlower
    revert hname
    decide
  · have h : lower bucketResolver (boundRef [("Name", .object [("Ref", .string "Bucket")])]) =
        .ok (.sub [.var "Ref"]
          [("Name", .ref "Bucket" .resource), ("Ref", .string "Bucket")]) :=
      lower_eq_ok_iff.2 (.subBound htokens (.cons (.ref rfl rfl) (.cons (.string _) .nil))
        (hbound (by decide)))
    exact ⟨_, h, (agrees_iff_of_lower h).2 (by rfl)⟩

end StackIr.Ir

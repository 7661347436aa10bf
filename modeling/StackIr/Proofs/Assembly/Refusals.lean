import StackIr.Ir.Assembly
import StackIr.Proofs.Decoding.Native
import StackIr.Proofs.Resources.Order

/-! # Why a template is refused

    Assembly can fail in ways that would not be the template's fault: a value of a type that
    templates do not have, a name that the graph of resources lacks or has twice, a graph that
    cannot be sorted.  None of them happens to a template that was read.  What is decoded has no
    values of other types, the names of the resolver and of the graph are those of one section,
    and the graph that is sorted was checked for cycles edge by edge.

    So every failure names a fault of the template, and assembly stops at the first one; only
    invalid resource types are collected. -/

namespace StackIr.Ir

/-- A fault that lies in the template. -/
inductive Fault.OfTemplate : Fault → Prop
  | invalidType (type : String) : OfTemplate (.invalidType type)
  | unresolved (use : Unresolved) : OfTemplate (.unresolved use)
  | unterminated (placeholder : Substitution.Unterminated) : OfTemplate (.unterminated placeholder)
  | unknownDependency (name : String) : OfTemplate (.unknownDependency name)
  | cycle (dependency dependent : String) : OfTemplate (.cycle dependency dependent)
  | refArgument (typeName : String) : OfTemplate (.malformed (.refName typeName))
  | getAttArgument (shown : String) : OfTemplate (.malformed (.attributeArgument shown))
  | subCount (count : Nat) : OfTemplate (.malformed (.subCount count))
  | subText (typeName : String) : OfTemplate (.malformed (.subText typeName))
  | subVariables (typeName : String) : OfTemplate (.malformed (.subVariables typeName))
  | subArgument (typeName : String) : OfTemplate (.malformed (.subArgument typeName))

/-- A failure with one fault, which lies in the template, under notes on its place. -/
inductive Blames : Failure → Prop
  | fault {fault : Fault} (h : fault.OfTemplate) : Blames (.assembly fault)
  | noted {inner : Failure} (note : String) (h : Blames inner) : Blames (.context note inner)

/-- A failure that a template gives cause for: one fault, or several invalid types. -/
inductive Refuses : Failure → Prop
  | one {failure : Failure} (h : Blames failure) : Refuses failure
  | invalidTypes (types : List String) (hmany : 2 ≤ types.length) :
      Refuses (.several (types.map fun type => .assembly (.invalidType type)))

variable {refs : Resolver}

theorem blames_noting {α : Type} {x : Except Failure α} (h : FailsOnly Blames x) (note : String) :
    FailsOnly Blames (noting note x) :=
  h.mapError fun _ hinner => .noted note hinner

/-! ## Checks of names -/

theorem blames_unresolved {α : Type} (name fn : String) (origin : Option Origin) :
    FailsOnly Blames (unresolved name fn origin : Except Failure α) :=
  .error (.fault (.unresolved _))

theorem blames_checkCondition (name : String) : FailsOnly Blames (checkCondition refs name) := by
  unfold checkCondition
  split
  · exact .ok ()
  · exact blames_unresolved _ _ _

theorem blames_checkResource (name fn : String) : FailsOnly Blames (checkResource refs name fn) := by
  unfold checkResource
  split
  · exact .ok ()
  · exact blames_unresolved _ _ _

theorem blames_checkReferable (name fn : String) :
    FailsOnly Blames (checkReferable refs name fn) := by
  unfold checkReferable
  split
  · split
    · exact .ok _
    · exact blames_unresolved _ _ _
  · exact blames_unresolved _ _ _

theorem blames_checkVariables (bound names : List String) :
    FailsOnly Blames (checkVariables refs bound names) := by
  induction names with
  | nil => exact .ok ()
  | cons name rest ih =>
    rw [checkVariables]
    refine FailsOnly.bind ?_ fun _ _ => ih
    unfold checkVariable
    split
    · exact .ok ()
    split
    · exact blames_checkResource _ _
    · exact (blames_checkReferable _ _).map

theorem blames_tokensOf (text : String) : FailsOnly Blames (tokensOf text) := by
  intro failure h
  obtain ⟨placeholder, -, rfl⟩ := mapError_eq_error_iff.1 h
  exact .fault (.unterminated placeholder)

/-! ## Values -/

theorem blames_lowerRef (args : Value) : FailsOnly Blames (lowerRef refs args) := by
  unfold lowerRef
  split
  · exact (blames_checkReferable _ _).map
  · exact .error (.fault (.refArgument _))

theorem blames_lowerGetAtt (args : Value) : FailsOnly Blames (lowerGetAtt refs args) := by
  unfold lowerGetAtt
  split
  split
  · exact .error (.fault (.getAttArgument _))
  · exact (blames_checkResource _ _).map

theorem blames_lowerSub (text : String) {bound : Except Failure (List (String × Expr))}
    (hbound : FailsOnly Blames bound) : FailsOnly Blames (lowerSub refs text bound) := by
  unfold lowerSub
  refine (blames_noting (blames_tokensOf text) _).bind fun tokens _ => ?_
  refine hbound.bind fun es _ => ?_
  exact (blames_checkVariables _ _).bind fun _ _ => .ok _

theorem blames_malformedSub {α : Type} (args : Value) :
    FailsOnly Blames (malformed (malformedSub args) : Except Failure α) := by
  unfold malformedSub
  split
  · exact .error (.fault (.subVariables _))
  · exact .error (.fault (.subText _))
  · exact .error (.fault (.subCount _))
  · exact .error (.fault (.subArgument _))

mutual

/-- A value that is made of what templates have is lowered or blames the template. -/
theorem blames_lower (v : Value) (hv : v.Native) : FailsOnly Blames (lower refs v) := by
  match v with
  | .string s =>
    unfold lower
    exact .ok _
  | .prim p =>
    unfold lower
    exact .ok _
  | .foreign f => exact hv.elim
  | .list items =>
    unfold lower
    rw [Value.Native] at hv
    exact (blames_lowerItems 0 items hv).map
  | .object [] =>
    unfold lower
    exact (blames_lowerFields [] trivial).map
  | .object (first :: second :: rest) =>
    unfold lower
    rw [Value.Native] at hv
    exact (blames_lowerFields (first :: second :: rest) hv).map
  | .object [(fn, args)] =>
    rw [Value.Native, Value.NativeFields] at hv
    have hargs := blames_noting (blames_lower args hv.1) fn
    unfold lower
    dsimp only
    split
    · exact blames_lowerRef args
    split
    · exact blames_lowerGetAtt args
    split
    · split
      · exact blames_lowerSub _ (.ok _)
      · rename_i text vars
        have hlist := hv.1
        rw [Value.Native, Value.NativeItems, Value.NativeItems, Value.Native] at hlist
        exact blames_lowerSub text (blames_lowerBound vars hlist.2.1)
      · exact blames_malformedSub _
    split
    · split
      · exact (blames_checkCondition _).bind fun _ _ => hargs.map
      · exact hargs.map
    · exact hargs.map

theorem blames_lowerItems (position : Nat) (items : List Value) (h : Value.NativeItems items) :
    FailsOnly Blames (lowerItems refs position items) := by
  match items with
  | [] =>
    unfold lowerItems
    exact .ok _
  | v :: vs =>
    rw [Value.NativeItems] at h
    unfold lowerItems
    refine (blames_noting (blames_lower v h.1) _).bind fun e _ => ?_
    exact (blames_lowerItems (position + 1) vs h.2).bind fun es _ => .ok _

theorem blames_lowerFields (fields : List (String × Value)) (h : Value.NativeFields fields) :
    FailsOnly Blames (lowerFields refs fields) := by
  match fields with
  | [] =>
    unfold lowerFields
    exact .ok _
  | (key, v) :: rest =>
    rw [Value.NativeFields] at h
    unfold lowerFields
    refine (blames_noting (blames_lower v h.1) _).bind fun e _ => ?_
    exact (blames_lowerFields rest h.2).bind fun es _ => .ok _

theorem blames_lowerBound (vars : List (String × Value)) (h : Value.NativeFields vars) :
    FailsOnly Blames (lowerBound refs vars) := by
  match vars with
  | [] =>
    unfold lowerBound
    exact .ok _
  | (name, v) :: rest =>
    rw [Value.NativeFields] at h
    unfold lowerBound
    refine (blames_noting (blames_lower v h.1) _).bind fun e _ => ?_
    exact (blames_lowerBound rest h.2).bind fun es _ => .ok _

end

/-! ## Outputs -/

theorem blames_lowerOutput (name : String) {o : Output} (ho : o.Native) :
    FailsOnly Blames (lowerOutput refs name o) := by
  unfold lowerOutput
  refine (blames_checkCondition _).bind fun _ _ => ?_
  refine (blames_lower o.value ho.value).bind fun value _ => ?_
  refine FailsOnly.bind ?_ fun exported _ => .ok _
  unfold lowerExport
  split
  · exact .ok none
  · exact (blames_noting (blames_lower o.exportName ho.exportName) _).map

theorem blames_lowerOutputList {entries : List (String × Output)}
    (h : ∀ entry ∈ entries, entry.2.Native) : FailsOnly Blames (lowerOutputList refs entries) := by
  induction entries with
  | nil => exact .ok []
  | cons entry rest ih =>
    obtain ⟨hfirst, hrest⟩ := List.forall_mem_cons.1 h
    unfold lowerOutputList
    refine (blames_noting (blames_lowerOutput entry.1 hfirst) _).bind fun out _ => ?_
    exact (ih hrest).bind fun outs _ => .ok _

theorem blames_lowerOutputs {t : Template} (h : t.NativeOutputs) :
    FailsOnly Blames (lowerOutputs refs t.outputs) := by
  unfold Template.NativeOutputs at h
  cases houtputs : t.outputs with
  | none => exact .ok none
  | some outputs =>
    rw [houtputs] at h
    exact (blames_lowerOutputList h).map

/-! ## Resources -/

theorem blames_references (v : Value) : FailsOnly Blames (references refs v) := by
  intro failure h
  have hfinds : FindsResources refs (references refs v) := findsResources_references v
  rw [h] at hfinds
  obtain ⟨placeholder, rfl⟩ := hfinds
  exact .noted _ (.fault (.unterminated placeholder))

theorem blames_resourceInstruction (name : String) (r : Resource) :
    FailsOnly Blames (resourceInstruction refs name r) := by
  unfold resourceInstruction
  refine FailsOnly.bind ?_ fun type _ => ?_
  · intro failure h
    rw [parse_eq_error h]
    exact .fault (.invalidType _)
  refine (blames_checkCondition _).bind fun _ _ => ?_
  exact (blames_references _).bind fun found _ => .ok _

theorem blames_checkDependsOn (names dependencies : List String) :
    FailsOnly Blames (checkDependsOn names dependencies) := by
  induction dependencies with
  | nil => exact .ok ()
  | cons name rest ih =>
    unfold checkDependsOn
    split
    · exact ih
    · exact .error (.fault (.unknownDependency _))

/-- An edge from a name of the graph is only refused because it closes a cycle. -/
theorem blames_addDependencies {g : DependencyGraph} {name : String} {dependencies : List String}
    (h : ∀ d ∈ dependencies, d ∈ g.vertices) :
    FailsOnly Blames (addDependencies g name dependencies) := by
  induction dependencies generalizing g with
  | nil => exact .ok g
  | cons dependency rest ih =>
    obtain ⟨hfirst, hrest⟩ := List.forall_mem_cons.1 h
    unfold addDependencies
    split
    · rename_i g₁ hadded
      have hvertices := (DependencyGraph.addEdge_eq_ok hadded).2.1
      apply ih
      rw [hvertices]
      exact hrest
    · rename_i hmissing
      exact absurd hfirst (DependencyGraph.addEdge_eq_missingSource hmissing)
    · exact .error (.fault (.cycle _ _))

/-- The names of the graph are those that may be depended on. -/
theorem blames_addResource {names : List String} {g : DependencyGraph} {name : String} {r : Resource}
    (hnames : ∀ d ∈ names, d ∈ g.vertices)
    (hrefs : ∀ d, refs.origin? d = some .resource → d ∈ g.vertices) :
    FailsOnly Blames (addResource refs names g name r) := by
  unfold addResource
  refine (blames_resourceInstruction name r).bind fun i hi => ?_
  refine (blames_checkDependsOn _ _).bind fun _ hdeclared => ?_
  refine (blames_addDependencies fun d hd => ?_).bind fun g' _ => .ok _
  -- a dependency is declared, and was checked against the names, or referred to, and is a resource
  rcases List.mem_append.1 hd with hd | hd
  · exact hnames d (checkDependsOn_eq_ok_iff.1 hdeclared d hd)
  · obtain ⟨-, hdescribes, -⟩ := resourceInstruction_eq_ok_iff.1 hi
    obtain ⟨found, hfound, hreferences⟩ := hdescribes.references
    rw [hreferences, Fields.mem_sortedKeys] at hd
    exact hrefs d (origin?_of_mem_references hfound hd)

theorem blames_addResources {names : List String} {g : DependencyGraph}
    {entries : List (String × Resource)} (hnames : ∀ d ∈ names, d ∈ g.vertices)
    (hrefs : ∀ d, refs.origin? d = some .resource → d ∈ g.vertices) :
    FailsOnly Blames (addResources refs names g entries) := by
  induction entries generalizing g with
  | nil => exact .ok _
  | cons entry rest ih =>
    obtain ⟨name, r⟩ := entry
    unfold addResources
    refine (blames_noting (blames_addResource hnames hrefs) _).bind ?_
    rintro ⟨i, g₁⟩ hfirst
    rw [noting_eq_ok_iff, addResource_eq_ok_iff] at hfirst
    have hvertices := (addDependencies_eq_ok hfirst.2.2).1
    refine FailsOnly.bind ?_ fun _ _ => .ok _
    apply ih
    · rw [hvertices]
      exact hnames
    · rw [hvertices]
      exact hrefs

/-- All names are added, and the graph that they and their dependencies make can be sorted. -/
theorem blames_orderResources (t : Template) :
    FailsOnly Blames (orderResources (.ofTemplate t) t.resources) := by
  unfold orderResources
  split
  · exact .ok none
  refine FailsOnly.bind ?_ fun g₀ hnames => ?_
  · intro failure h
    cases (addNames_names t.resources).symm.trans h
  cases (addNames_names t.resources).symm.trans hnames
  refine FailsOnly.bind ?_ ?_
  · apply blames_addResources
    · intro d hd
      exact hd
    · intro d hd
      exact Resolver.origin?_ofTemplate_eq_resource_iff.1 hd
  · rintro ⟨instructions, g⟩ hadded
    obtain ⟨order, hsort⟩ := (valid_of_addResources hadded).sort?
    dsimp only
    rw [hsort]
    exact .ok _

/-! ## Assembly -/

/-- Invalid types are reported one and all. -/
theorem refuses_ofTypes (types : List String) : FailsOnly Refuses (Import.ofTypes types) := by
  have hfaults : ∃ invalid : List String,
      (types.filterMap fun type => if (TypeName.parse? type).isNone then
        some (Failure.assembly (.invalidType type)) else none) =
      invalid.map fun type => Failure.assembly (.invalidType type) := by
    -- the invalid types are those that are left when the others are filtered out
    refine ⟨types.filter fun type => (TypeName.parse? type).isNone, ?_⟩
    rw [← List.filterMap_eq_map, List.filterMap_filter]
    rfl
  obtain ⟨invalid, hinvalid⟩ := hfaults
  unfold Import.ofTypes
  dsimp only
  rw [hinvalid]
  match invalid with
  | [] => exact .ok _
  | [type] => exact .error (.one (.fault (.invalidType type)))
  | first :: second :: rest =>
    exact .error (.invalidTypes (first :: second :: rest) (by simp))

/-- A template that was read is assembled or refused for a fault of its own. -/
theorem refuses_of_parse {bytes : List UInt8} {t : Template} {failure : Failure}
    (hparse : Template.parse bytes = .ok t) (h : Ir.ofTemplate t = .error failure) :
    Refuses failure := by
  -- the three steps that can fail come one after the other
  rw [ofTemplate, assemble, assembleSteps] at h
  split at h
  · rename_i himports
    cases h
    exact refuses_ofTypes _ _ himports
  dsimp only at h
  split at h
  · rename_i hresources
    cases h
    exact .one (blames_orderResources t _ hresources)
  split at h
  · rename_i houtputs
    cases h
    exact .one (blames_lowerOutputs (Template.nativeOutputs_of_parse hparse) _ houtputs)
  · cases h

/-- Two queues that need each other, one of them through a tag. -/
def queueText : String :=
  "Resources:\n  A: \x7bType: AWS::SQS::Queue, DependsOn: B\x7d\n  B:\n    Type: AWS::SQS::Queue\n" ++
    "    Properties: \x7bTarget: !GetAtt A.Arn\x7d\n"

theorem refuses_of_parse_queues :
    ∃ t failure, Template.parse (Text.Utf8.encode queueText) = .ok t ∧
      Ir.ofTemplate t = .error failure ∧ failure.cycle? = some ("A", "B") ∧ Refuses failure := by
  have heval : (Template.parse (Text.Utf8.encode queueText)).toOption.map (fun t =>
      match Ir.ofTemplate t with
      | .ok _ => none
      | .error failure => failure.cycle?) = some (some ("A", "B")) := by
    decide +kernel
  cases hparse : Template.parse (Text.Utf8.encode queueText) with
  | error failure =>
    rw [hparse] at heval
    cases heval
  | ok t =>
    rw [hparse] at heval
    cases h : Ir.ofTemplate t with
    | ok ir =>
      simp only [Except.toOption, Option.map_some, h] at heval
      cases heval
    | error failure =>
      simp only [Except.toOption, Option.map_some, h] at heval
      exact ⟨t, failure, rfl, h, Option.some.inj heval, refuses_of_parse hparse h⟩

end StackIr.Ir

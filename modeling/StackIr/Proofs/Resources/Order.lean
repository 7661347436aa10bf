import StackIr.Proofs.Dependencies.Order
import StackIr.Proofs.Resolver
import StackIr.Proofs.Resources.Graph

/-! # The order of resources

    `orderResources` gives one instruction for each resource, after those of its
    dependencies.  For the names of a template it succeeds exactly if every resource can be
    read on its own and the dependencies have no cycle; the cycle that a failure reports is
    one of them. -/

namespace StackIr.Ir

open Relation

variable {refs : Resolver} {s : Section Resource}

/-! ## What was done -/

/-- No name is there twice, so the names of a section are all added. -/
theorem addNames_names (s : Section Resource) :
    addNames (.ofNames []) (Section.names s) = .ok (.ofNames (Section.names s)) :=
  addNames_eq_ok (Section.nodup_names s)

/-- Either there are no resources, or the graph of all of them was built and sorted. -/
theorem orderResources_eq_ok {result : Option (List ResourceInstruction)}
    (h : orderResources refs s = .ok result) :
    (Section.entries s = [] ∧ result = none) ∨
      ∃ instructions g order,
        addResources refs (Section.names s) (.ofNames (Section.names s)) (Section.entries s) =
          .ok (instructions, g) ∧
        g.sort? = some order ∧
        result = some (order.filterMap fun name => instructions.find? (·.name = name)) := by
  unfold orderResources at h
  split at h
  · rename_i hnone
    cases h
    exact Or.inl ⟨hnone, rfl⟩
  · right
    obtain ⟨g₀, hnames, h⟩ := bind_eq_ok_iff.1 h
    cases (addNames_names s).symm.trans hnames
    obtain ⟨⟨instructions, g⟩, hadded, h⟩ := bind_eq_ok_iff.1 h
    dsimp only at h
    split at h
    · cases h
    · rename_i order hsort
      cases h
      exact ⟨instructions, g, order, hadded, hsort, rfl⟩

/-- The names of the graph are those of the section, and all of them are declared. -/
theorem mem_vertices_ofNames {entry : String × Resource} (h : entry ∈ Section.entries s) :
    entry.1 ∈ (DependencyGraph.ofNames (Section.names s)).vertices :=
  Section.mem_names_iff.2 ⟨entry.2, h⟩

theorem valid_of_addResources {instructions : List ResourceInstruction} {g : DependencyGraph}
    (h : addResources refs (Section.names s) (.ofNames (Section.names s)) (Section.entries s) =
      .ok (instructions, g)) : g.Valid :=
  (DependencyGraph.valid_ofNames _).addResources (fun _ => mem_vertices_ofNames) h

/-- The edges of the graph are the dependencies of the resources. -/
theorem edge_iff_depends {instructions : List ResourceInstruction} {g : DependencyGraph}
    (h : addResources refs (Section.names s) (.ofNames (Section.names s)) (Section.entries s) =
      .ok (instructions, g)) (a b : String) :
    g.Edge a b ↔ Depends refs (Section.entries s) a b := by
  rw [(edges_of_addResources h).2 a b]
  exact or_iff_right (DependencyGraph.not_edge_ofNames _ a b)

/-- Looking names up among instructions gives the instructions of those names. -/
theorem map_name_filterMap_find? {instructions : List ResourceInstruction} {order : List String}
    (h : ∀ name ∈ order, name ∈ instructions.map (·.name)) :
    (order.filterMap fun name => instructions.find? (·.name = name)).map (·.name) = order := by
  induction order with
  | nil => rfl
  | cons name rest ih =>
    obtain ⟨hname, hrest⟩ := List.forall_mem_cons.1 h
    obtain ⟨i, hi, hiname⟩ := List.mem_map.1 hname
    obtain ⟨found, hfound⟩ : ∃ found, instructions.find? (·.name = name) = some found :=
      Option.isSome_iff_exists.1 (List.find?_isSome.2 ⟨i, hi, by simpa using hiname⟩)
    have hfoundname : found.name = name := by simpa using List.find?_some hfound
    simp only [List.filterMap_cons, hfound, List.map_cons, hfoundname, ih hrest]

/-- The instructions of a sorted graph stand in the order of its names. -/
theorem map_name_of_sort? {instructions : List ResourceInstruction} {g : DependencyGraph}
    {order : List String}
    (h : addResources refs (Section.names s) (.ofNames (Section.names s)) (Section.entries s) =
      .ok (instructions, g)) (hsort : g.sort? = some order) :
    (order.filterMap fun name => instructions.find? (·.name = name)).map (·.name) = order := by
  refine map_name_filterMap_find? fun name hname => ?_
  rw [map_name_of_addResources h]
  have hvertex : name ∈ g.vertices := (DependencyGraph.sort?_eq_some hsort).1.mem_iff.1 hname
  rwa [(edges_of_addResources h).1] at hvertex

/-! ## The order -/

/-- There is one instruction for each resource. -/
theorem perm_names_of_orderResources {result : Option (List ResourceInstruction)}
    (h : orderResources refs s = .ok result) :
    ((result.getD []).map (·.name)).Perm (Section.names s) := by
  rcases orderResources_eq_ok h with ⟨hnone, rfl⟩ | ⟨instructions, g, order, hadded, hsort, rfl⟩
  · simp [Section.names, hnone]
  · obtain ⟨hperm, -⟩ := DependencyGraph.sort?_eq_some hsort
    rw [Option.getD_some, map_name_of_sort? hadded hsort]
    rwa [(edges_of_addResources hadded).1] at hperm

/-- Every instruction is that of a resource of its name. -/
theorem describes_of_orderResources {result : Option (List ResourceInstruction)}
    (h : orderResources refs s = .ok result) {i : ResourceInstruction} (hi : i ∈ result.getD []) :
    ∃ r, (i.name, r) ∈ Section.entries s ∧ i.Describes refs r := by
  rcases orderResources_eq_ok h with ⟨-, rfl⟩ | ⟨instructions, g, order, hadded, -, rfl⟩
  · simp at hi
  · obtain ⟨name, -, hfound⟩ := List.mem_filterMap.1 hi
    exact describes_of_addResources hadded (List.mem_of_find?_eq_some hfound)

/-- The result has one instruction for each resource, with that resource's declarations, and
    every name that an instruction depends on is that of an earlier one. -/
theorem orderResources_after_dependencies {result : Option (List ResourceInstruction)}
    (h : orderResources refs s = .ok result) :
    ((result.getD []).map (·.name)).Perm (Section.names s) ∧
      (∀ i ∈ result.getD [], ∀ r, (i.name, r) ∈ Section.entries s → i.Describes refs r) ∧
      ∀ before i after, result.getD [] = before ++ i :: after →
        ∀ d, d ∈ i.dependsOn.getD [] ∨ d ∈ i.references → d ∈ before.map (·.name) := by
  refine ⟨perm_names_of_orderResources h, ?_, ?_⟩
  · intro i hi r hr
    obtain ⟨r', hr', hdescribes⟩ := describes_of_orderResources h hi
    cases Section.eq_of_mem_entries hr hr'
    exact hdescribes
  -- the row of names is the order of the graph, which puts every name after its dependencies
  intro before i after hsplit d hd
  obtain ⟨r, hmem, hdescribes⟩ := describes_of_orderResources h (i := i) (by simp [hsplit])
  have hdepends : DependsOn refs r d := hdescribes.mem_dependencies_iff.1 (List.mem_append.2 hd)
  rcases orderResources_eq_ok h with ⟨hnone, -⟩ | ⟨instructions, g, order, hadded, hsort, rfl⟩
  · simp [hnone] at hmem
  · rw [Option.getD_some] at hsplit
    have hsplitNames : order = before.map (·.name) ++ i.name :: after.map (·.name) := by
      rw [← map_name_of_sort? hadded hsort, hsplit, List.map_append, List.map_cons]
    obtain ⟨-, hrespects⟩ := DependencyGraph.sort?_eq_some hsort
    exact hrespects _ _ _ hsplitNames d ((edge_iff_depends hadded d i.name).2 ⟨r, hmem, hdepends⟩)

/-- A policy that is declared before the bucket and the topic that it needs. -/
def policyTemplate : Template where
  resources := some (.ofList
    [ ("Policy", {
        type := "AWS::S3::BucketPolicy"
        dependsOn := some ["Bucket"]
        properties := some [("Topic", .object [("Fn::GetAtt", .string "Topic.Arn")])] }),
      ("Bucket", { type := "AWS::S3::Bucket" }),
      ("Topic", { type := "AWS::SNS::Topic" }) ])

theorem orderResources_after_dependencies_policy :
    ∃ result, orderResources (.ofTemplate policyTemplate) policyTemplate.resources = .ok result ∧
      (result.getD []).map (·.name) = ["Bucket", "Topic", "Policy"] ∧
      ∀ before i after, result.getD [] = before ++ i :: after →
        ∀ d, d ∈ i.dependsOn.getD [] ∨ d ∈ i.references → d ∈ before.map (·.name) := by
  have heval : (orderResources (.ofTemplate policyTemplate) policyTemplate.resources).toOption.map
      (fun result => (result.getD []).map (·.name)) = some ["Bucket", "Topic", "Policy"] := by
    decide +kernel
  obtain ⟨result, h, hnames⟩ := toOption_map_eq_some_iff.1 heval
  exact ⟨result, h, hnames, (orderResources_after_dependencies h).2.2⟩

/-! ## Success and failure -/

/-- What ordering the resources of a template needs. -/
structure Orderable (t : Template) : Prop where
  /-- Every type names an organization and a service. -/
  types : ∀ name r, (name, r) ∈ Section.entries t.resources → NamesService r.type
  /-- Every condition is declared. -/
  conditions : ∀ name r, (name, r) ∈ Section.entries t.resources → r.condition ≠ "" →
    r.condition ∈ Section.names t.conditions
  /-- Every declared dependency is a resource. -/
  declared : ∀ name r, (name, r) ∈ Section.entries t.resources →
    ∀ d ∈ r.dependsOn.getD [], d ∈ Section.names t.resources
  /-- The references of every resource can be read. -/
  readable : ∀ name r, (name, r) ∈ Section.entries t.resources →
    ∃ found, references (.ofTemplate t) (.object (r.properties.getD [])) = .ok found
  /-- No resource depends on itself, directly or through others. -/
  acyclic : ∀ name, ¬ TransGen (Depends (.ofTemplate t) (Section.entries t.resources)) name name

/-- A resource has an instruction if it can be read on its own. -/
theorem exists_resourceInstruction_iff {name : String} {r : Resource} :
    (∃ i, resourceInstruction refs name r = .ok i) ↔
      NamesService r.type ∧ (r.condition = "" ∨ refs.isCondition r.condition = true) ∧
        ∃ found, references refs (.object (r.properties.getD [])) = .ok found := by
  constructor
  · intro ⟨i, hi⟩
    obtain ⟨-, hdescribes, hcondition⟩ := resourceInstruction_eq_ok_iff.1 hi
    obtain ⟨found, hfound, -⟩ := hdescribes.references
    exact ⟨exists_parse?_iff.1 ⟨i.type, hdescribes.type⟩, hcondition, found, hfound⟩
  · intro ⟨htype, hcondition, found, hfound⟩
    obtain ⟨typeName, hparsed⟩ := exists_parse?_iff.2 htype
    exact ⟨⟨name, typeName, r.condition, r.dependsOn, Fields.sortedKeys found, r.deletionPolicy,
      r.updateReplacePolicy, r.properties⟩, resourceInstruction_eq_ok_iff.2
        ⟨rfl, ⟨hparsed, rfl, rfl, ⟨found, hfound, rfl⟩, rfl, rfl, rfl⟩, hcondition⟩⟩

theorem orderable_of_orderResources {t : Template} {result : Option (List ResourceInstruction)}
    (h : orderResources (.ofTemplate t) t.resources = .ok result) : Orderable t := by
  rcases orderResources_eq_ok h with ⟨hnone, -⟩ | ⟨instructions, g, order, hadded, -, -⟩
  · -- without resources there is nothing to check
    refine ⟨?_, ?_, ?_, ?_, ?_⟩
    · simp [hnone]
    · simp [hnone]
    · simp [hnone]
    · simp [hnone]
    · intro name hcycle
      obtain ⟨_, ⟨r, hmem, -⟩, -⟩ := TransGen.head'_iff.1 hcycle
      simp [hnone] at hmem
  have hread : ∀ name r, (name, r) ∈ Section.entries t.resources → _ := fun name r hmem =>
    exists_resourceInstruction_iff.1 (instruction_of_addResources hadded hmem).1
  refine ⟨fun name r hmem => (hread name r hmem).1, ?_, ?_,
    fun name r hmem => (hread name r hmem).2.2, ?_⟩
  · intro name r hmem hne
    exact Resolver.isCondition_ofTemplate_iff.1 ((hread name r hmem).2.1.resolve_left hne)
  · intro name r hmem
    exact (instruction_of_addResources hadded hmem).2
  · intro name hcycle
    have hsub : Depends (.ofTemplate t) (Section.entries t.resources) ≤ g.Edge :=
      fun a b => (edge_iff_depends hadded a b).2
    exact (valid_of_addResources hadded).acyclic name (TransGen.mono hsub _ _ hcycle)

theorem Orderable.exists_orderResources {t : Template} (h : Orderable t) :
    ∃ result, orderResources (.ofTemplate t) t.resources = .ok result := by
  have hadd : ∃ result, addResources (.ofTemplate t) (Section.names t.resources)
      (.ofNames (Section.names t.resources)) (Section.entries t.resources) = .ok result := by
    refine exists_addResources h.acyclic (DependencyGraph.valid_ofNames _) ?_ ?_
    · intro a b hedge
      exact absurd hedge (DependencyGraph.not_edge_ofNames _ a b)
    · rintro ⟨name, r⟩ hmem
      refine ⟨mem_vertices_ofNames hmem, ?_, h.declared name r hmem, ?_⟩
      · refine exists_resourceInstruction_iff.2 ⟨h.types name r hmem, ?_, h.readable name r hmem⟩
        by_cases hcondition : r.condition = ""
        · exact Or.inl hcondition
        · exact Or.inr (Resolver.isCondition_ofTemplate_iff.2 (h.conditions name r hmem hcondition))
      · intro d hd
        refine ⟨?_, r, hmem, hd⟩
        rcases hd with hdeclared | ⟨found, hfound, hmemfound⟩
        · exact h.declared name r hmem d hdeclared
        · exact Resolver.origin?_ofTemplate_eq_resource_iff.1 (origin?_of_mem_references hfound hmemfound)
  obtain ⟨⟨instructions, g⟩, hadded⟩ := hadd
  obtain ⟨order, hsort⟩ := (valid_of_addResources hadded).sort?
  unfold orderResources
  split
  · exact ⟨none, rfl⟩
  · refine ⟨some (order.filterMap fun name => instructions.find? (·.name = name)),
      bind_eq_ok_iff.2 ⟨_, addNames_names t.resources,
        bind_eq_ok_iff.2 ⟨(instructions, g), hadded, ?_⟩⟩⟩
    dsimp only
    rw [hsort]
    rfl

theorem cycle?_of_orderResources {failure : Failure} {d n : String}
    (h : orderResources refs s = .error failure) (hcycle : failure.cycle? = some (d, n)) :
    Depends refs (Section.entries s) d n ∧
      ReflTransGen (Depends refs (Section.entries s)) n d := by
  unfold orderResources at h
  split at h
  · cases h
  rcases bind_eq_error_iff.1 h with h | ⟨g₀, hnames, h⟩
  · cases (addNames_names s).symm.trans h
  cases (addNames_names s).symm.trans hnames
  rcases bind_eq_error_iff.1 h with h | ⟨⟨instructions, g⟩, -, h⟩
  · refine cycle?_of_addResources (DependencyGraph.valid_ofNames _) ?_ ?_ h hcycle
    · intro a b hedge
      exact absurd hedge (DependencyGraph.not_edge_ofNames _ a b)
    · exact fun entry hmem => ⟨mem_vertices_ofNames hmem, fun d hd => ⟨entry.2, hmem, hd⟩⟩
  · dsimp only at h
    split at h
    · cases h
      cases hcycle
    · cases h

/-- The resources of a template can be ordered exactly if they are `Orderable`.  A cycle that
    is reported is a dependency `d` of `n` that is `n` itself or depends on `n` in turn. -/
theorem orderResources_ofTemplate_iff_orderable (t : Template) :
    ((∃ result, orderResources (.ofTemplate t) t.resources = .ok result) ↔ Orderable t) ∧
      ∀ failure d n, orderResources (.ofTemplate t) t.resources = .error failure →
        failure.cycle? = some (d, n) →
          Depends (.ofTemplate t) (Section.entries t.resources) d n ∧
            (d = n ∨ TransGen (Depends (.ofTemplate t) (Section.entries t.resources)) n d) := by
  refine ⟨⟨?_, Orderable.exists_orderResources⟩, ?_⟩
  · intro ⟨result, h⟩
    exact orderable_of_orderResources h
  · intro failure d n h hcycle
    obtain ⟨hdepends, hpath⟩ := cycle?_of_orderResources h hcycle
    exact ⟨hdepends, reflTransGen_iff_eq_or_transGen.1 hpath⟩

/-- Two queues that need each other: one by declaration, the other by reference. -/
def queueTemplate : Template where
  resources := some (.ofList
    [ ("A", { type := "AWS::SQS::Queue", dependsOn := some ["B"] }),
      ("B", {
        type := "AWS::SQS::Queue"
        properties := some [("Target", .object [("Fn::GetAtt", .string "A.Arn")])] }) ])

theorem orderResources_ofTemplate_queues :
    ¬ Orderable queueTemplate ∧
      TransGen (Depends (.ofTemplate queueTemplate) (Section.entries queueTemplate.resources)) "B" "A" := by
  obtain ⟨hiff, hfails⟩ := orderResources_ofTemplate_iff_orderable queueTemplate
  have heval : ((orderResources (.ofTemplate queueTemplate)
      queueTemplate.resources).mapError Failure.cycle?).map (fun _ => ()) =
        .error (some ("A", "B")) := by
    decide +kernel
  obtain ⟨failure, h, hcycle⟩ := mapError_eq_error_iff.1 (map_eq_error_iff.1 heval)
  refine ⟨?_, ((hfails failure "A" "B" h hcycle).2).resolve_left (by decide)⟩
  intro hordered
  obtain ⟨result, hresult⟩ := hiff.2 hordered
  rw [h] at hresult
  cases hresult

end StackIr.Ir

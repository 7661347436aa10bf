import StackIr.Proofs.Dependencies.Reachability
import StackIr.Proofs.Resources.Instructions

/-! # The graph of resources

    Resources are added one after the other, each with the edges from its dependencies.  The
    graph then has exactly the dependencies of the resources as its edges.

    The check for cycles is made edge by edge, on the graph as far as it has been built.  A
    relation `R` that all dependencies belong to links it to the whole: the graph is always a
    part of `R`, so an edge that is refused lies on a cycle of `R`, and if `R` has no cycle no
    edge is refused. -/

namespace StackIr.Ir

open Relation

variable {refs : Resolver} {g g' : DependencyGraph} {name : String} {dependencies : List String}
  {R : String → String → Prop}

/-! ## Names -/

/-- Names that differ from each other and from those that are there are all added. -/
theorem addNames_eq_ok {names : List String} (h : (g.vertices ++ names).Nodup) :
    addNames g names = .ok ⟨g.vertices ++ names, g.edges⟩ := by
  induction names generalizing g with
  | nil => simp [addNames]
  | cons name rest ih =>
    have hnew : name ∉ g.vertices := by
      intro hmem
      exact (List.nodup_append.1 h).2.2 name hmem name (by simp) rfl
    rw [addNames, DependencyGraph.addVertex?, if_neg hnew]
    refine (ih ?_).trans ?_
    · simpa using h
    · simp

/-! ## Edges of one resource -/

theorem addDependencies_cons_eq_ok_iff {dependency : String} :
    addDependencies g name (dependency :: dependencies) = .ok g' ↔
      ∃ g₁, g.addEdge dependency name = .ok g₁ ∧ addDependencies g₁ name dependencies = .ok g' := by
  rw [addDependencies]
  split
  · rename_i g₁ hadded
    simp [hadded]
  · rename_i hmissing
    simp [hmissing]
  · rename_i hcloses
    simp [hcloses]

theorem addDependencies_eq_ok (h : addDependencies g name dependencies = .ok g') :
    g'.vertices = g.vertices ∧ (∀ dependency ∈ dependencies, dependency ∈ g.vertices) ∧
      ∀ a b, g'.Edge a b ↔ g.Edge a b ∨ (a ∈ dependencies ∧ b = name) := by
  induction dependencies generalizing g with
  | nil =>
    cases h
    simp
  | cons dependency rest ih =>
    obtain ⟨g₁, hadded, hadded'⟩ := addDependencies_cons_eq_ok_iff.1 h
    obtain ⟨hsource, hvertices, hedges, -⟩ := DependencyGraph.addEdge_eq_ok hadded
    obtain ⟨hvertices', hrest, hedges'⟩ := ih hadded'
    refine ⟨hvertices'.trans hvertices, ?_, ?_⟩
    · rw [List.forall_mem_cons]
      exact ⟨hsource, fun d hd => hvertices ▸ hrest d hd⟩
    · intro a b
      rw [hedges', hedges, List.mem_cons, or_and_right, or_assoc]

theorem DependencyGraph.Valid.addDependencies (hg : g.Valid) (hname : name ∈ g.vertices)
    (h : addDependencies g name dependencies = .ok g') : g'.Valid := by
  induction dependencies generalizing g with
  | nil =>
    cases h
    exact hg
  | cons dependency rest ih =>
    obtain ⟨g₁, hadded, hadded'⟩ := addDependencies_cons_eq_ok_iff.1 h
    have hvertices := (DependencyGraph.addEdge_eq_ok hadded).2.1
    exact ih (hg.addEdge hname hadded) (hvertices ▸ hname) hadded'

/-- An edge of `R` that is added to a part of `R` gives a part of `R`. -/
theorem le_of_addEdge {source target : String} (hsub : g.Edge ≤ R) (hnew : R source target)
    (h : g.addEdge source target = .ok g') : g'.Edge ≤ R := by
  intro a b hab
  obtain ⟨-, -, hedges, -⟩ := DependencyGraph.addEdge_eq_ok h
  rcases (hedges a b).1 hab with hold | ⟨rfl, rfl⟩
  · exact hsub a b hold
  · exact hnew

theorem le_of_addDependencies (hsub : g.Edge ≤ R) (hdependencies : ∀ d ∈ dependencies, R d name)
    (h : addDependencies g name dependencies = .ok g') : g'.Edge ≤ R := by
  intro a b hab
  obtain ⟨-, -, hedges⟩ := addDependencies_eq_ok h
  rcases (hedges a b).1 hab with hold | ⟨hmem, rfl⟩
  · exact hsub a b hold
  · exact hdependencies a hmem

/-- Dependencies that belong to a relation without cycles are all added. -/
theorem exists_addDependencies (hR : ∀ n, ¬ TransGen R n n) (hg : g.Valid)
    (hname : name ∈ g.vertices) (hsub : g.Edge ≤ R)
    (hdependencies : ∀ d ∈ dependencies, d ∈ g.vertices ∧ R d name) :
    ∃ g', addDependencies g name dependencies = .ok g' := by
  induction dependencies generalizing g with
  | nil => exact ⟨g, rfl⟩
  | cons dependency rest ih =>
    obtain ⟨⟨hsource, hnew⟩, hrest⟩ := List.forall_mem_cons.1 hdependencies
    unfold addDependencies
    split
    · rename_i g₁ hadded
      have hvertices := (DependencyGraph.addEdge_eq_ok hadded).2.1
      refine ih (hg.addEdge hname hadded) (hvertices ▸ hname) (le_of_addEdge hsub hnew hadded) ?_
      exact fun d hd => hvertices ▸ hrest d hd
    · rename_i hmissing
      exact absurd hsource (DependencyGraph.addEdge_eq_missingSource hmissing)
    · rename_i hcloses
      -- the path that was found leads from `name` to its dependency, and the new edge back
      have hpath := DependencyGraph.addEdge_eq_closesCycle hg.inside hcloses
      have hpathR : ReflTransGen R name dependency := ReflTransGen.mono hsub _ _ hpath
      exact absurd (TransGen.tail' hpathR hnew) (hR name)

/-- A cycle that is reported is one of `R`: the dependency leads back to itself. -/
theorem cycle?_of_addDependencies {failure : Failure} {d n : String} (hg : g.Valid)
    (hname : name ∈ g.vertices) (hsub : g.Edge ≤ R) (hdependencies : ∀ d ∈ dependencies, R d name)
    (h : addDependencies g name dependencies = .error failure)
    (hcycle : failure.cycle? = some (d, n)) : R d n ∧ ReflTransGen R n d := by
  induction dependencies generalizing g with
  | nil => cases h
  | cons dependency rest ih =>
    obtain ⟨hnew, hrest⟩ := List.forall_mem_cons.1 hdependencies
    unfold addDependencies at h
    split at h
    · rename_i g₁ hadded
      have hvertices := (DependencyGraph.addEdge_eq_ok hadded).2.1
      exact ih (hg.addEdge hname hadded) (hvertices ▸ hname) (le_of_addEdge hsub hnew hadded) hrest h
    · cases h
      cases hcycle
    · -- the refused edge belongs to `R`, and so does the path back that was found
      rename_i hcloses
      cases h
      cases hcycle
      have hpath := DependencyGraph.addEdge_eq_closesCycle hg.inside hcloses
      exact ⟨hnew, ReflTransGen.mono hsub _ _ hpath⟩

/-! ## One resource -/

variable {names : List String} {r : Resource} {i : ResourceInstruction}

theorem addResource_eq_ok_iff :
    addResource refs names g name r = .ok (i, g') ↔
      resourceInstruction refs name r = .ok i ∧ (∀ d ∈ i.dependsOn.getD [], d ∈ names) ∧
        addDependencies g name i.dependencies = .ok g' := by
  simp only [addResource, bind_eq_ok_iff, pure_eq_ok_iff, Prod.mk.injEq]
  constructor
  · rintro ⟨_, hinstruction, _, hdeclared, _, hadded, rfl, rfl⟩
    exact ⟨hinstruction, checkDependsOn_eq_ok_iff.1 hdeclared, hadded⟩
  · rintro ⟨hinstruction, hdeclared, hadded⟩
    exact ⟨i, hinstruction, (), checkDependsOn_eq_ok_iff.2 hdeclared, g', hadded, rfl, rfl⟩

theorem cycle?_of_addResource {failure : Failure} {d n : String} (hg : g.Valid)
    (hname : name ∈ g.vertices) (hsub : g.Edge ≤ R) (hr : ∀ d, DependsOn refs r d → R d name)
    (h : addResource refs names g name r = .error failure)
    (hcycle : failure.cycle? = some (d, n)) : R d n ∧ ReflTransGen R n d := by
  unfold addResource at h
  -- only the last of the three steps can report a cycle
  rcases bind_eq_error_iff.1 h with h | ⟨i, hinstruction, h⟩
  · rw [cycle?_of_resourceInstruction h] at hcycle
    cases hcycle
  rcases bind_eq_error_iff.1 h with h | ⟨_, -, h⟩
  · rw [cycle?_of_checkDependsOn h] at hcycle
    cases hcycle
  rcases bind_eq_error_iff.1 h with h | ⟨_, -, h⟩
  · obtain ⟨-, hdescribes, -⟩ := resourceInstruction_eq_ok_iff.1 hinstruction
    have hdependencies : ∀ d ∈ i.dependencies, R d name :=
      fun d hd => hr d (hdescribes.mem_dependencies_iff.1 hd)
    exact cycle?_of_addDependencies hg hname hsub hdependencies h hcycle
  · cases h

/-! ## All resources -/

variable {entries : List (String × Resource)} {instructions : List ResourceInstruction}

/-- One name depends on another if a resource of that name does. -/
def Depends (refs : Resolver) (entries : List (String × Resource)) (dependency dependent : String) :
    Prop :=
  ∃ r, (dependent, r) ∈ entries ∧ DependsOn refs r dependency

@[simp] theorem depends_cons_iff {a b : String} :
    Depends refs ((name, r) :: entries) a b ↔
      (DependsOn refs r a ∧ b = name) ∨ Depends refs entries a b := by
  simp only [Depends, List.mem_cons, Prod.mk.injEq]
  constructor
  · intro ⟨r', hentry, hdepends⟩
    rcases hentry with ⟨rfl, rfl⟩ | hmem
    · exact Or.inl ⟨hdepends, rfl⟩
    · exact Or.inr ⟨r', hmem, hdepends⟩
  · intro h
    rcases h with ⟨hdepends, rfl⟩ | ⟨r', hmem, hdepends⟩
    · exact ⟨r, Or.inl ⟨rfl, rfl⟩, hdepends⟩
    · exact ⟨r', Or.inr hmem, hdepends⟩

theorem addResources_cons_eq_ok_iff :
    addResources refs names g ((name, r) :: entries) = .ok (instructions, g') ↔
      ∃ i g₁ rest, addResource refs names g name r = .ok (i, g₁) ∧
        addResources refs names g₁ entries = .ok (rest, g') ∧ instructions = i :: rest := by
  simp only [addResources, bind_eq_ok_iff, noting_eq_ok_iff, pure_eq_ok_iff, Prod.exists,
    Prod.mk.injEq]
  constructor
  · rintro ⟨i, g₁, hfirst, rest, _, hrest, rfl, rfl⟩
    exact ⟨i, g₁, rest, hfirst, hrest, rfl⟩
  · rintro ⟨i, g₁, rest, hfirst, hrest, rfl⟩
    exact ⟨i, g₁, hfirst, rest, g', hrest, rfl, rfl⟩

/-- Every resource has its instruction, and its declared dependencies are known names. -/
theorem forall₂_of_addResources (h : addResources refs names g entries = .ok (instructions, g')) :
    List.Forall₂
      (fun entry i => resourceInstruction refs entry.1 entry.2 = .ok i ∧
        ∀ d ∈ i.dependsOn.getD [], d ∈ names) entries instructions := by
  induction entries generalizing g instructions with
  | nil =>
    cases h
    exact List.Forall₂.nil
  | cons entry entries ih =>
    obtain ⟨i, g₁, rest, hfirst, hrest, rfl⟩ := addResources_cons_eq_ok_iff.1 h
    obtain ⟨hinstruction, hdeclared, -⟩ := addResource_eq_ok_iff.1 hfirst
    exact List.Forall₂.cons ⟨hinstruction, hdeclared⟩ (ih hrest)

theorem map_name_of_addResources (h : addResources refs names g entries = .ok (instructions, g')) :
    instructions.map (·.name) = entries.map Prod.fst := by
  have hforall := forall₂_of_addResources h
  clear h
  induction hforall with
  | nil => rfl
  | cons hfirst _ ih =>
    rw [List.map_cons, List.map_cons, ih, (resourceInstruction_eq_ok_iff.1 hfirst.1).1]

theorem describes_of_addResources (h : addResources refs names g entries = .ok (instructions, g'))
    (hi : i ∈ instructions) : ∃ r, (i.name, r) ∈ entries ∧ i.Describes refs r := by
  obtain ⟨⟨name, r⟩, hmem, hinstruction, -⟩ := exists_mem_of_forall₂ (forall₂_of_addResources h) hi
  obtain ⟨hname, hdescribes, -⟩ := resourceInstruction_eq_ok_iff.1 hinstruction
  exact ⟨r, hname ▸ hmem, hdescribes⟩

theorem instruction_of_addResources (h : addResources refs names g entries = .ok (instructions, g'))
    (hmem : (name, r) ∈ entries) :
    (∃ i, resourceInstruction refs name r = .ok i) ∧ ∀ d ∈ r.dependsOn.getD [], d ∈ names := by
  obtain ⟨i, -, hinstruction, hdeclared⟩ :=
    exists_mem_of_forall₂ (forall₂_of_addResources h).flip hmem
  obtain ⟨-, hdescribes, -⟩ := resourceInstruction_eq_ok_iff.1 hinstruction
  exact ⟨⟨i, hinstruction⟩, hdescribes.dependsOn ▸ hdeclared⟩

/-- The graph has the dependencies of the resources as its edges, besides those that were
    there before. -/
theorem edges_of_addResources (h : addResources refs names g entries = .ok (instructions, g')) :
    g'.vertices = g.vertices ∧
      ∀ a b, g'.Edge a b ↔ g.Edge a b ∨ Depends refs entries a b := by
  induction entries generalizing g instructions with
  | nil =>
    cases h
    simp [Depends]
  | cons entry entries ih =>
    obtain ⟨name, r⟩ := entry
    obtain ⟨i, g₁, rest, hfirst, hrest, rfl⟩ := addResources_cons_eq_ok_iff.1 h
    obtain ⟨hinstruction, -, hadded⟩ := addResource_eq_ok_iff.1 hfirst
    obtain ⟨-, hdescribes, -⟩ := resourceInstruction_eq_ok_iff.1 hinstruction
    obtain ⟨hvertices, -, hedges⟩ := addDependencies_eq_ok hadded
    obtain ⟨hvertices', hedges'⟩ := ih hrest
    refine ⟨hvertices'.trans hvertices, ?_⟩
    intro a b
    rw [hedges', hedges, hdescribes.mem_dependencies_iff, depends_cons_iff, or_assoc]

theorem DependencyGraph.Valid.addResources (hg : g.Valid)
    (hnames : ∀ entry ∈ entries, entry.1 ∈ g.vertices)
    (h : addResources refs names g entries = .ok (instructions, g')) : g'.Valid := by
  induction entries generalizing g instructions with
  | nil =>
    cases h
    exact hg
  | cons entry entries ih =>
    obtain ⟨hname, hrest⟩ := List.forall_mem_cons.1 hnames
    obtain ⟨i, g₁, rest, hfirst, hadded', rfl⟩ := addResources_cons_eq_ok_iff.1 h
    obtain ⟨-, -, hadded⟩ := addResource_eq_ok_iff.1 hfirst
    have hvertices := (addDependencies_eq_ok hadded).1
    exact ih (hg.addDependencies hname hadded) (hvertices ▸ hrest) hadded'

/-- Resources that have instructions and whose dependencies are known names and belong to a
    relation without cycles are all added. -/
theorem exists_addResources (hR : ∀ n, ¬ TransGen R n n) (hg : g.Valid) (hsub : g.Edge ≤ R)
    (hentries : ∀ entry ∈ entries, entry.1 ∈ g.vertices ∧
      (∃ i, resourceInstruction refs entry.1 entry.2 = .ok i) ∧
      (∀ d ∈ entry.2.dependsOn.getD [], d ∈ names) ∧
      ∀ d, DependsOn refs entry.2 d → d ∈ g.vertices ∧ R d entry.1) :
    ∃ result, addResources refs names g entries = .ok result := by
  induction entries generalizing g with
  | nil => exact ⟨([], g), rfl⟩
  | cons entry entries ih =>
    obtain ⟨name, r⟩ := entry
    obtain ⟨⟨hname, ⟨i, hinstruction⟩, hdeclared, hdepends⟩, hrest⟩ := List.forall_mem_cons.1 hentries
    obtain ⟨-, hdescribes, -⟩ := resourceInstruction_eq_ok_iff.1 hinstruction
    have hdependencies : ∀ d ∈ i.dependencies, d ∈ g.vertices ∧ R d name :=
      fun d hd => hdepends d (hdescribes.mem_dependencies_iff.1 hd)
    obtain ⟨g₁, hadded⟩ := exists_addDependencies hR hg hname hsub hdependencies
    have hfirst : addResource refs names g name r = .ok (i, g₁) :=
      addResource_eq_ok_iff.2 ⟨hinstruction, hdescribes.dependsOn ▸ hdeclared, hadded⟩
    have hvertices := (addDependencies_eq_ok hadded).1
    -- the graph is still a part of `R`, so the rest can be added to it
    have hsub' : g₁.Edge ≤ R :=
      le_of_addDependencies hsub (fun d hd => (hdependencies d hd).2) hadded
    obtain ⟨⟨rest, g₂⟩, hadded'⟩ :=
      ih (hg.addDependencies hname hadded) hsub' (hvertices ▸ hrest)
    exact ⟨_, addResources_cons_eq_ok_iff.2 ⟨i, g₁, rest, hfirst, hadded', rfl⟩⟩

theorem cycle?_of_addResources {failure : Failure} {d n : String} (hg : g.Valid)
    (hsub : g.Edge ≤ R)
    (hentries : ∀ entry ∈ entries, entry.1 ∈ g.vertices ∧
      ∀ d, DependsOn refs entry.2 d → R d entry.1)
    (h : addResources refs names g entries = .error failure)
    (hcycle : failure.cycle? = some (d, n)) : R d n ∧ ReflTransGen R n d := by
  induction entries generalizing g failure with
  | nil => cases h
  | cons entry entries ih =>
    obtain ⟨name, r⟩ := entry
    obtain ⟨⟨hname, hdepends⟩, hrest⟩ := List.forall_mem_cons.1 hentries
    unfold addResources at h
    rcases bind_eq_error_iff.1 h with h | ⟨⟨i, g₁⟩, hfirst, h⟩
    · obtain ⟨inner, hinner, rfl⟩ := noting_eq_error_iff.1 h
      rw [Failure.cycle?_context] at hcycle
      exact cycle?_of_addResource hg hname hsub hdepends hinner hcycle
    rw [noting_eq_ok_iff, addResource_eq_ok_iff] at hfirst
    obtain ⟨hinstruction, -, hadded⟩ := hfirst
    obtain ⟨-, hdescribes, -⟩ := resourceInstruction_eq_ok_iff.1 hinstruction
    have hvertices := (addDependencies_eq_ok hadded).1
    have hsub' : g₁.Edge ≤ R :=
      le_of_addDependencies hsub (fun d hd => hdepends d (hdescribes.mem_dependencies_iff.1 hd)) hadded
    rcases bind_eq_error_iff.1 h with h | ⟨_, -, h⟩
    · exact ih (hg.addDependencies hname hadded) hsub' (hvertices ▸ hrest) h hcycle
    · cases h

end StackIr.Ir

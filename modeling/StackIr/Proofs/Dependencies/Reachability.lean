import Mathlib.Logic.Relation
import StackIr.Ir.Dependencies

/-! # Reachability in a dependency graph

    `reaches` decides whether one name is found from another by following edges, and
    `addEdge` refuses an edge for exactly two reasons: its source is no name of the graph, or
    its target already reaches its source.  A graph that is built from `addEdge` alone has no
    cycle, and an edge is refused for a cycle only if it really closes one. -/

namespace StackIr.Ir.DependencyGraph

open Relation

variable {g : DependencyGraph}

/-- There is an edge from `a` to `b`: `b` depends on `a`. -/
def Edge (g : DependencyGraph) (a b : String) : Prop :=
  (a, b) ∈ g.edges

/-- No name is found from itself by following one or more edges. -/
def Acyclic (g : DependencyGraph) : Prop :=
  ∀ name, ¬ TransGen g.Edge name name

/-- Every edge runs between names of the graph. -/
def Inside (g : DependencyGraph) : Prop :=
  ∀ a b, g.Edge a b → a ∈ g.vertices ∧ b ∈ g.vertices

@[simp] theorem mem_dependencies_iff {name dependency : String} :
    dependency ∈ g.dependencies name ↔ g.Edge dependency name := by
  simp only [dependencies, Edge, List.mem_filterMap, Prod.exists]
  constructor
  · intro ⟨a, b, hedge, h⟩
    split at h
    · rename_i hb
      cases h
      exact hb ▸ hedge
    · cases h
  · intro hedge
    exact ⟨dependency, name, hedge, if_pos rfl⟩

theorem mem_dependents_iff {names : List String} {b : String} :
    b ∈ g.dependents names ↔ ∃ a ∈ names, g.Edge a b := by
  simp only [dependents, Edge, List.mem_filterMap, Prod.exists]
  constructor
  · intro ⟨a, c, hedge, h⟩
    split at h
    · rename_i ha
      cases h
      exact ⟨a, ha, hedge⟩
    · cases h
  · intro ⟨a, ha, hedge⟩
    exact ⟨a, b, hedge, if_pos ha⟩

/-! ## Following edges -/

/-- An edge whose target is one of `names`. -/
def EdgeInto (g : DependencyGraph) (names : List String) (a b : String) : Prop :=
  g.Edge a b ∧ b ∈ names

/-- A path through `names` either stays outside `met` after its start, or there is a last
    name of `met` on it, from which the rest of it stays outside. -/
theorem exists_last_met {names : List String} (met : List String) {a goal : String}
    (h : ReflTransGen (g.EdgeInto names) a goal) :
    ReflTransGen (g.EdgeInto (names.filter (· ∉ met))) a goal ∨
      ∃ b ∈ met, b ∈ names ∧ ReflTransGen (g.EdgeInto (names.filter (· ∉ met))) b goal := by
  induction h using ReflTransGen.head_induction_on with
  | refl => exact Or.inl ReflTransGen.refl
  | @head a b hab _ ih =>
    -- the path is read from its end, so the first name of `met` that comes up is the last one
    rcases ih with hpath | hlater
    · by_cases hb : b ∈ met
      · exact Or.inr ⟨b, hb, hab.2, hpath⟩
      · have hstep : g.EdgeInto (names.filter (· ∉ met)) a b :=
          ⟨hab.1, List.mem_filter.2 ⟨hab.2, by simpa using hb⟩⟩
        exact Or.inl (ReflTransGen.head hstep hpath)
    · exact Or.inr hlater

/-- One round of the search: a path from the frontier to a goal that is not there goes on
    from one of the next names, and does not come back to them. -/
theorem exists_path_iff_next {goal : String} {unseen frontier next : List String}
    (hgoal : goal ∉ frontier)
    (hnext : ∀ b, b ∈ next ↔ b ∈ unseen ∧ ∃ a ∈ frontier, g.Edge a b) :
    (∃ a ∈ frontier, ReflTransGen (g.EdgeInto unseen) a goal) ↔
      ∃ b ∈ next, ReflTransGen (g.EdgeInto (unseen.filter (· ∉ next))) b goal := by
  constructor
  · intro ⟨a, ha, hpath⟩
    rcases exists_last_met next hpath with hout | ⟨b, hb, _, hrest⟩
    · -- a path from the frontier that never meets the next names has no first step
      rcases ReflTransGen.cases_head hout with rfl | ⟨b, ⟨hab, hb⟩, _⟩
      · exact absurd ha hgoal
      · rw [List.mem_filter, decide_eq_true_eq] at hb
        exact absurd ((hnext b).2 ⟨hb.1, a, ha, hab⟩) hb.2
    · exact ⟨b, hb, hrest⟩
  · intro ⟨b, hb, hpath⟩
    obtain ⟨hunseen, a, ha, hab⟩ := (hnext b).1 hb
    have hsub : g.EdgeInto (unseen.filter (· ∉ next)) ≤ g.EdgeInto unseen :=
      fun _ _ h => ⟨h.1, (List.mem_filter.1 h.2).1⟩
    exact ⟨a, ha, ReflTransGen.head ⟨hab, hunseen⟩ (ReflTransGen.mono hsub _ _ hpath)⟩

/-- With enough fuel, the search finds exactly the names that a path through unseen names
    leads to. -/
theorem search_eq_true_iff {goal : String} {fuel : Nat} {unseen frontier : List String}
    (hfuel : unseen.length ≤ fuel) :
    g.search goal fuel unseen frontier = true ↔
      ∃ a ∈ frontier, ReflTransGen (g.EdgeInto unseen) a goal := by
  induction fuel generalizing unseen frontier with
  | zero =>
    have hunseen : unseen = [] := List.eq_nil_of_length_eq_zero (Nat.le_zero.1 hfuel)
    subst hunseen
    simp only [search, decide_eq_true_eq]
    constructor
    · intro hgoal
      exact ⟨goal, hgoal, ReflTransGen.refl⟩
    · intro ⟨a, ha, hpath⟩
      -- no name is left to go to, so the path is empty
      rcases ReflTransGen.cases_tail hpath with rfl | ⟨_, _, hlast⟩
      · exact ha
      · simp [EdgeInto] at hlast
  | succ fuel ih =>
    unfold search
    by_cases hgoal : goal ∈ frontier
    · simp only [if_pos hgoal, true_iff]
      exact ⟨goal, hgoal, ReflTransGen.refl⟩
    rw [if_neg hgoal]
    dsimp only
    have hnext : ∀ b, b ∈ unseen.filter (· ∈ g.dependents frontier) ↔
        b ∈ unseen ∧ ∃ a ∈ frontier, g.Edge a b := by
      intro b
      rw [List.mem_filter, decide_eq_true_eq, mem_dependents_iff]
    rw [exists_path_iff_next hgoal hnext]
    generalize unseen.filter (· ∈ g.dependents frontier) = next at hnext ⊢
    split
    · rename_i hempty
      simp [List.isEmpty_iff.1 hempty]
    · rename_i hsome
      obtain ⟨b, hb⟩ := List.exists_mem_of_ne_nil next (by simpa using hsome)
      -- the search gets shorter, since `b` is no longer unseen
      have hlt : (unseen.filter (· ∉ next)).length < unseen.length :=
        List.length_filter_lt_length_iff_exists.2 ⟨b, ((hnext b).1 hb).1, by simpa using hb⟩
      exact ih (by omega)

/-- `reaches` follows edges: it holds of a name and itself, and of two names with a path from
    one to the other. -/
theorem reaches_iff (hg : g.Inside) {start goal : String} :
    g.reaches start goal = true ↔ ReflTransGen g.Edge start goal := by
  rw [reaches, search_eq_true_iff (List.length_filter_le _ _)]
  constructor
  · intro ⟨a, ha, hpath⟩
    rw [List.mem_singleton] at ha
    subst ha
    exact ReflTransGen.mono (fun _ _ h => h.1) _ _ hpath
  · intro hpath
    have hinto : ReflTransGen (g.EdgeInto g.vertices) start goal :=
      ReflTransGen.mono (fun a b hab => ⟨hab, (hg a b hab).2⟩) _ _ hpath
    have hfilter : g.vertices.filter (· ≠ start) = g.vertices.filter (· ∉ [start]) := by
      simp
    refine ⟨start, List.mem_singleton_self start, ?_⟩
    rw [hfilter]
    -- the search does not go back to its start, so follow the path from there on
    rcases exists_last_met [start] hinto with hout | ⟨b, hb, _, hout⟩
    · exact hout
    · rw [List.mem_singleton] at hb
      exact hb ▸ hout

/-! ## Adding an edge -/

/-- What `addEdge` keeps: edges run between names, and none closes a cycle. -/
structure Valid (g : DependencyGraph) : Prop where
  inside : g.Inside
  acyclic : g.Acyclic

theorem not_edge_ofNames (names : List String) (a b : String) : ¬ (ofNames names).Edge a b := by
  simp [Edge, ofNames]

theorem valid_ofNames (names : List String) : (ofNames names).Valid where
  inside := by
    intro a b hedge
    exact absurd hedge (not_edge_ofNames names a b)
  acyclic := by
    intro name hcycle
    -- a cycle would begin with an edge
    obtain ⟨b, hedge, _⟩ := TransGen.head'_iff.1 hcycle
    exact not_edge_ofNames names name b hedge

/-- An edge that is added joins its two names, and nothing else changes. -/
theorem addEdge_eq_ok {g' : DependencyGraph} {source target : String}
    (h : g.addEdge source target = .ok g') :
    source ∈ g.vertices ∧ g'.vertices = g.vertices ∧
      (∀ a b, g'.Edge a b ↔ g.Edge a b ∨ (a = source ∧ b = target)) ∧
      (g.Edge source target ∨ g.reaches target source = false) := by
  unfold addEdge at h
  split at h
  · cases h
  rename_i hsource
  split at h
  · rename_i hthere
    cases h
    refine ⟨by simpa using hsource, rfl, ?_, Or.inl hthere⟩
    intro a b
    constructor
    · exact Or.inl
    · rintro (hab | ⟨rfl, rfl⟩)
      · exact hab
      · exact hthere
  split at h
  · cases h
  · rename_i hreaches
    cases h
    refine ⟨by simpa using hsource, rfl, ?_, Or.inr (by simpa using hreaches)⟩
    intro a b
    simp [Edge]

theorem addEdge_eq_missingSource {source target : String}
    (h : g.addEdge source target = .error .missingSource) : source ∉ g.vertices := by
  unfold addEdge at h
  split at h
  · assumption
  split at h
  · cases h
  · split at h <;> cases h

/-- An edge is refused for a cycle only if its target leads to its source. -/
theorem addEdge_eq_closesCycle (hg : g.Inside) {source target : String}
    (h : g.addEdge source target = .error .closesCycle) :
    ReflTransGen g.Edge target source := by
  unfold addEdge at h
  split at h
  · cases h
  split at h
  · cases h
  split at h
  · exact (reaches_iff hg).1 ‹_›
  · cases h

/-- A path in a graph with one more edge is a path without it, or leads to that edge and
    goes on from it. -/
theorem transGen_of_added {g' : DependencyGraph} {source target a b : String}
    (hedges : ∀ a b, g'.Edge a b ↔ g.Edge a b ∨ (a = source ∧ b = target))
    (h : TransGen g'.Edge a b) :
    TransGen g.Edge a b ∨ (ReflTransGen g.Edge a source ∧ ReflTransGen g.Edge target b) := by
  induction h with
  | single hab =>
    rcases (hedges _ _).1 hab with hold | ⟨rfl, rfl⟩
    · exact Or.inl (TransGen.single hold)
    · exact Or.inr ⟨ReflTransGen.refl, ReflTransGen.refl⟩
  | tail _ hbc ih =>
    rcases (hedges _ _).1 hbc with hold | ⟨rfl, rfl⟩
    · rcases ih with hpath | ⟨hto, hfrom⟩
      · exact Or.inl (hpath.tail hold)
      · exact Or.inr ⟨hto, hfrom.tail hold⟩
    · rcases ih with hpath | ⟨hto, _⟩
      · exact Or.inr ⟨hpath.to_reflTransGen, ReflTransGen.refl⟩
      · exact Or.inr ⟨hto, ReflTransGen.refl⟩

theorem Valid.addEdge (hg : g.Valid) {g' : DependencyGraph} {source target : String}
    (htarget : target ∈ g.vertices) (h : g.addEdge source target = .ok g') : g'.Valid := by
  obtain ⟨hsource, hvertices, hedges, hfree⟩ := addEdge_eq_ok h
  refine ⟨?_, ?_⟩
  · intro a b hab
    rw [hvertices]
    rcases (hedges a b).1 hab with hold | ⟨rfl, rfl⟩
    · exact hg.inside a b hold
    · exact ⟨hsource, htarget⟩
  · intro name hcycle
    rcases hfree with hthere | hreaches
    · -- the edge was there before, so the cycle was too
      have hsub : g'.Edge ≤ g.Edge := by
        intro a b hab
        rcases (hedges a b).1 hab with hold | ⟨rfl, rfl⟩
        · exact hold
        · exact hthere
      exact hg.acyclic name (TransGen.mono hsub _ _ hcycle)
    · rcases transGen_of_added hedges hcycle with hold | ⟨hto, hfrom⟩
      · exact hg.acyclic name hold
      · -- the cycle runs through the new edge, so its target led to its source
        have hback := (reaches_iff hg.inside).2 (hfrom.trans hto)
        rw [hreaches] at hback
        cases hback

end StackIr.Ir.DependencyGraph

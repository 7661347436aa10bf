import Mathlib.Order.WellFoundedSet
import StackIr.Proofs.Dependencies.Reachability

/-! # Dependency order

    The order of a graph holds names once each and puts every name after its dependencies.
    One state of the queue is described by `Draining`: which names are done, which are ready
    and which still wait.  Taking a name from the queue keeps it, so it holds when the queue
    is empty; and then a name that still waits would lie on a cycle. -/

namespace StackIr.Ir.DependencyGraph

open Relation

variable {g : DependencyGraph}

/-- Every name of the list stands after the names that it depends on. -/
def Respects (g : DependencyGraph) (order : List String) : Prop :=
  ∀ before name after, order = before ++ name :: after →
    ∀ dependency, g.Edge dependency name → dependency ∈ before

theorem respects_nil : g.Respects [] := by
  intro before name after h
  simp at h

theorem Respects.append_singleton {done : List String} {name : String} (h : g.Respects done)
    (hready : ∀ dependency, g.Edge dependency name → dependency ∈ done) :
    g.Respects (done ++ [name]) := by
  intro before other after hsplit dependency hedge
  rcases List.eq_nil_or_concat after with rfl | ⟨init, last, rfl⟩
  · -- `other` is the name that was added
    obtain ⟨rfl, hlast⟩ := List.append_inj' hsplit rfl
    cases hlast
    exact hready dependency hedge
  · have hsplit' : done ++ [name] = (before ++ other :: init) ++ [last] := by
      simpa using hsplit
    exact h before other init (List.append_inj' hsplit' rfl).1 dependency hedge

/-! ## The queue -/

/-- What holds while names are taken from the queue: every name is done, ready or waiting,
    those that are done are in order, and a name waits as long as a dependency is not done. -/
structure Draining (g : DependencyGraph) (done queue waiting : List String) : Prop where
  accounted : (done ++ queue ++ waiting).Perm g.vertices
  respects : g.Respects done
  ready : ∀ name ∈ queue, ∀ dependency, g.Edge dependency name → dependency ∈ done
  blocked : ∀ name ∈ waiting, ∃ dependency, g.Edge dependency name ∧ dependency ∉ done

theorem release_eq {done waiting : List String} :
    g.release done waiting =
      (waiting.filter fun name => (g.dependencies name).all (· ∈ done),
        waiting.filter fun name => !(g.dependencies name).all (· ∈ done)) := by
  simp [release, List.partition_eq_filter_filter, Function.comp_def]

theorem mem_released_iff {done waiting : List String} {name : String} :
    name ∈ (g.release done waiting).1 ↔
      name ∈ waiting ∧ ∀ dependency, g.Edge dependency name → dependency ∈ done := by
  simp [release_eq]

theorem mem_unreleased_iff {done waiting : List String} {name : String} :
    name ∈ (g.release done waiting).2 ↔
      name ∈ waiting ∧ ∃ dependency, g.Edge dependency name ∧ dependency ∉ done := by
  simp [release_eq]

theorem release_perm (done waiting : List String) :
    ((g.release done waiting).1 ++ (g.release done waiting).2).Perm waiting := by
  rw [release_eq]
  exact List.filter_append_perm _ waiting

theorem released_sublist (done waiting : List String) :
    (g.release done waiting).1.Sublist waiting := by
  rw [release_eq]
  exact List.filter_sublist

theorem unreleased_sublist (done waiting : List String) :
    (g.release done waiting).2.Sublist waiting := by
  rw [release_eq]
  exact List.filter_sublist

theorem draining_start : g.Draining [] (g.release [] g.vertices).1 (g.release [] g.vertices).2 where
  accounted := by simpa using release_perm (g := g) [] g.vertices
  respects := respects_nil
  ready := fun _ h => (mem_released_iff.1 h).2
  blocked := fun _ h => (mem_unreleased_iff.1 h).2

/-- Taking one name from the queue. -/
theorem Draining.step {done queue waiting : List String} {name : String}
    (h : g.Draining done (name :: queue) waiting) :
    g.Draining (done ++ [name]) (queue ++ (g.release (done ++ [name]) waiting).1)
      (g.release (done ++ [name]) waiting).2 where
  accounted := by
    have hperm := release_perm (g := g) (done ++ [name]) waiting
    -- a name moves from the front of the queue to the names done, and the rest is a permutation
    have hgrow : (done ++ [name] ++ (queue ++ (g.release (done ++ [name]) waiting).1) ++
        (g.release (done ++ [name]) waiting).2).Perm (done ++ name :: queue ++ waiting) := by
      simpa using (hperm.append_left queue).append_left (done ++ [name])
    exact hgrow.trans h.accounted
  respects := h.respects.append_singleton (h.ready name (List.mem_cons_self ..))
  ready := by
    intro other hother dependency hedge
    rcases List.mem_append.1 hother with hqueue | hreleased
    · exact List.mem_append_left _ (h.ready other (List.mem_cons_of_mem _ hqueue) dependency hedge)
    · exact (mem_released_iff.1 hreleased).2 dependency hedge
  blocked := fun _ hother => (mem_unreleased_iff.1 hother).2

theorem drain_cons (fuel : Nat) (done : List String) (name : String) (queue waiting : List String) :
    g.drain (fuel + 1) done (name :: queue) waiting =
      g.drain fuel (done ++ [name]) (queue ++ (g.release (done ++ [name]) waiting).1)
        (g.release (done ++ [name]) waiting).2 :=
  rfl

/-- The queue runs empty: with a turn for each name that is not done, what every turn keeps
    holds when no name is left in the queue. -/
theorem drain_induction {P : List String → List String → List String → Prop}
    (hstep : ∀ done name queue waiting, P done (name :: queue) waiting →
      P (done ++ [name]) (queue ++ (g.release (done ++ [name]) waiting).1)
        (g.release (done ++ [name]) waiting).2)
    {fuel : Nat} {done queue waiting : List String} (h : P done queue waiting)
    (hfuel : queue.length + waiting.length ≤ fuel) :
    ∃ rest, P (g.drain fuel done queue waiting) [] rest := by
  induction fuel generalizing done queue waiting with
  | zero =>
    have hqueue : queue = [] := List.eq_nil_of_length_eq_zero (by omega)
    subst hqueue
    exact ⟨waiting, h⟩
  | succ fuel ih =>
    cases queue with
    | nil => exact ⟨waiting, h⟩
    | cons name queue =>
      rw [drain_cons]
      refine ih (hstep done name queue waiting h) ?_
      -- released names move from the waiting ones to the queue, and one name is done
      have hlength := (release_perm (g := g) (done ++ [name]) waiting).length_eq
      simp only [List.length_append, List.length_cons] at hfuel hlength ⊢
      omega

/-- What holds of the first queue and is kept by every turn holds of the order. -/
theorem order_induction {P : List String → List String → List String → Prop}
    (hstart : P [] (g.release [] g.vertices).1 (g.release [] g.vertices).2)
    (hstep : ∀ done name queue waiting, P done (name :: queue) waiting →
      P (done ++ [name]) (queue ++ (g.release (done ++ [name]) waiting).1)
        (g.release (done ++ [name]) waiting).2) :
    ∃ rest, P g.order [] rest := by
  have hfuel : (g.release [] g.vertices).1.length + (g.release [] g.vertices).2.length ≤
      g.vertices.length := by
    rw [← List.length_append]
    exact (release_perm [] g.vertices).length_eq.le
  exact drain_induction hstep hstart hfuel

theorem draining_order : ∃ rest, g.Draining g.order [] rest :=
  order_induction draining_start fun _ _ _ _ => Draining.step

/-! ## Sorting -/

/-- An order is returned if no name is missing from it. -/
theorem sort?_eq_some_iff {order : List String} :
    g.sort? = some order ↔ g.order = order ∧ order.length = g.vertices.length := by
  rw [sort?]
  split
  · rename_i hlength
    rw [Option.some_inj]
    constructor
    · rintro rfl
      exact ⟨rfl, hlength⟩
    · exact And.left
  · rename_i hlength
    constructor
    · intro h
      cases h
    · rintro ⟨rfl, hall⟩
      exact absurd hall hlength

/-- An order that is returned holds every name once, after its dependencies. -/
theorem sort?_eq_some {order : List String} (h : g.sort? = some order) :
    order.Perm g.vertices ∧ g.Respects order := by
  obtain ⟨rfl, hlength⟩ := sort?_eq_some_iff.1 h
  obtain ⟨rest, hrest⟩ := draining_order (g := g)
  have hperm := hrest.accounted
  -- as many names are done as there are, so none waits
  have hnil : rest = [] := by
    have hall := hperm.length_eq
    simp only [List.length_append, List.length_nil] at hall
    exact List.eq_nil_of_length_eq_zero (by omega)
  subst hnil
  exact ⟨by simpa using hperm, hrest.respects⟩

/-- Among names that each depend on another of them there is a cycle. -/
theorem Acyclic.exists_free (hg : g.Acyclic) {names : List String} (hne : names ≠ []) :
    ∃ name ∈ names, ∀ dependency ∈ names, ¬ g.Edge dependency name := by
  have : IsStrictOrder String (TransGen g.Edge) :=
    { irrefl := hg, trans := fun _ _ _ => TransGen.trans }
  have hwf : {name | name ∈ names}.WellFoundedOn (TransGen g.Edge) :=
    (List.finite_toSet names).wellFoundedOn
  obtain ⟨first, hfirst⟩ := List.exists_mem_of_ne_nil names hne
  -- a name that no other of them leads to has no dependency among them
  obtain ⟨least, -, hleast⟩ := WellFounded.has_min hwf Set.univ ⟨⟨first, hfirst⟩, trivial⟩
  refine ⟨least.1, least.2, ?_⟩
  intro dependency hdependency hedge
  exact hleast ⟨dependency, hdependency⟩ trivial (TransGen.single hedge)

/-- A graph without cycles can be ordered. -/
theorem Valid.sort? (hg : g.Valid) : ∃ order, g.sort? = some order := by
  obtain ⟨rest, hrest⟩ := draining_order (g := g)
  have hnil : rest = [] := by
    by_contra hne
    obtain ⟨name, hname, hfree⟩ := hg.acyclic.exists_free hne
    obtain ⟨dependency, hedge, hundone⟩ := hrest.blocked name hname
    -- the dependency that blocks the name is not done, so it waits too
    have hmem : dependency ∈ g.order ++ [] ++ rest :=
      hrest.accounted.mem_iff.2 (hg.inside dependency name hedge).1
    rw [List.append_nil, List.mem_append] at hmem
    exact hfree dependency (hmem.resolve_left hundone) hedge
  subst hnil
  have hlength := hrest.accounted.length_eq
  simp only [List.append_nil] at hlength
  exact ⟨g.order, sort?_eq_some_iff.2 ⟨rfl, hlength⟩⟩

end StackIr.Ir.DependencyGraph

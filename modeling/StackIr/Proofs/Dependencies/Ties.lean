import Mathlib.Data.Finset.Lattice.Fold
import StackIr.Proofs.Dependencies.Order

/-! # Ties in dependency order

    Names leave the queue as they join it.  A name joins it when the last of its dependencies
    is done, together with all other names that are released then, and these join in
    declaration order.  So the order of a graph is sorted by release, and only among names
    that are released together by declaration.

    A declaration order comes out again exactly if it is sorted in this way itself.  That each
    name is declared after its dependencies is not enough: of two names, the one that is
    declared first may have to wait for a name that the other does not wait for. -/

namespace StackIr.Ir.DependencyGraph

variable {g : DependencyGraph}

/-! ## Release -/

/-- How many names of an order have to be done before a name is released: all up to the last
    of its dependencies. -/
def releasedAt (g : DependencyGraph) (order : List String) (name : String) : Nat :=
  (g.dependencies name).toFinset.sup fun dependency => order.idxOf dependency + 1

theorem releasedAt_le_iff {order : List String} {name : String} {n : Nat} :
    g.releasedAt order name ≤ n ↔ ∀ dependency, g.Edge dependency name → order.idxOf dependency < n := by
  simp only [releasedAt, Finset.sup_le_iff, List.mem_toFinset, mem_dependencies_iff, Nat.succ_le_iff]

theorem lt_releasedAt_iff {order : List String} {name : String} {n : Nat} :
    n < g.releasedAt order name ↔ ∃ dependency, g.Edge dependency name ∧ n ≤ order.idxOf dependency := by
  simp only [releasedAt, Finset.lt_sup_iff, List.mem_toFinset, mem_dependencies_iff, Nat.lt_succ_iff]

theorem releasedAt_le_releasedAt_iff {order : List String} {a b : String} :
    g.releasedAt order a ≤ g.releasedAt order b ↔
      ∀ d, g.Edge d a → ∃ d', g.Edge d' b ∧ order.idxOf d ≤ order.idxOf d' := by
  simp only [releasedAt_le_iff, lt_releasedAt_iff]

/-- A name is released while the first names of an order are done exactly if all its
    dependencies are among them. -/
theorem releasedAt_le_length_iff {done : List String} {name : String} (rest : List String) :
    g.releasedAt (done ++ rest) name ≤ done.length ↔
      ∀ dependency, g.Edge dependency name → dependency ∈ done := by
  rw [releasedAt_le_iff]
  -- each dependency is judged alone: it stands among the first names, or at their number or later
  refine forall₂_congr fun dependency _ => ?_
  constructor
  · intro hlt
    by_contra hundone
    rw [List.idxOf_append_of_notMem hundone] at hlt
    omega
  · intro hdone
    rw [List.idxOf_append_of_mem hdone]
    exact List.idxOf_lt_length_of_mem hdone

/-- Names that are done later do not change when a name was released. -/
theorem releasedAt_append {done : List String} {name : String}
    (h : ∀ dependency, g.Edge dependency name → dependency ∈ done) (later : List String) :
    g.releasedAt (done ++ later) name = g.releasedAt done name := by
  unfold releasedAt
  refine Finset.sup_congr rfl fun dependency hmem => ?_
  have hedge : g.Edge dependency name := mem_dependencies_iff.1 (List.mem_toFinset.1 hmem)
  rw [List.idxOf_append_of_mem (h dependency hedge)]

/-- A name that the last name done has released. -/
theorem releasedAt_of_released {done waiting : List String} {name other : String}
    (hblocked : ∀ other ∈ waiting, ∃ dependency, g.Edge dependency other ∧ dependency ∉ done)
    (hother : other ∈ (g.release (done ++ [name]) waiting).1) :
    g.releasedAt (done ++ [name]) other = done.length + 1 := by
  obtain ⟨hwaiting, hready⟩ := mem_released_iff.1 hother
  obtain ⟨dependency, hedge, hundone⟩ := hblocked other hwaiting
  have hle : g.releasedAt (done ++ [name]) other ≤ (done ++ [name]).length := by
    have h := (releasedAt_le_length_iff []).2 hready
    rwa [List.append_nil] at h
  have hgt : ¬ g.releasedAt (done ++ [name]) other ≤ done.length := by
    intro h
    exact hundone ((releasedAt_le_length_iff [name]).1 h dependency hedge)
  rw [List.length_append, List.length_singleton] at hle
  omega

/-! ## The order is sorted by release -/

/-- One name comes before another in an order: it is released before it, or with it and is
    declared first. -/
def Precedes (g : DependencyGraph) (order : List String) (a b : String) : Prop :=
  g.releasedAt order a < g.releasedAt order b ∨
    (g.releasedAt order a = g.releasedAt order b ∧ [a, b].Sublist g.vertices)

/-- What holds of the queue besides `Draining`: the names that are done or ready are sorted,
    and those that wait are as they were declared. -/
structure Sorting (g : DependencyGraph) (done queue waiting : List String) : Prop
    extends g.Draining done queue waiting where
  sorted : (done ++ queue).Pairwise (g.Precedes done)
  declared : waiting.Sublist g.vertices

/-- The dependencies of a name that is done or ready are done. -/
theorem Draining.dependencies_done {done queue waiting : List String} {name : String}
    (h : g.Draining done queue waiting) (hname : name ∈ done ++ queue) :
    ∀ dependency, g.Edge dependency name → dependency ∈ done := by
  intro dependency hedge
  rcases List.mem_append.1 hname with hdone | hqueue
  · obtain ⟨before, after, rfl⟩ := List.append_of_mem hdone
    exact List.mem_append_left _ (h.respects before name after rfl dependency hedge)
  · exact h.ready name hqueue dependency hedge

theorem Precedes.append {done : List String} {a b : String} (h : g.Precedes done a b)
    (ha : ∀ dependency, g.Edge dependency a → dependency ∈ done)
    (hb : ∀ dependency, g.Edge dependency b → dependency ∈ done) (later : List String) :
    g.Precedes (done ++ later) a b := by
  unfold Precedes
  rw [releasedAt_append ha, releasedAt_append hb]
  exact h

theorem sorting_start : g.Sorting [] (g.release [] g.vertices).1 (g.release [] g.vertices).2 where
  toDraining := draining_start
  sorted := by
    rw [List.nil_append, List.pairwise_iff_forall_sublist]
    intro a b hsub
    -- names that wait for nothing are released before any name is done
    have hreleased : ∀ name ∈ [a, b], g.releasedAt [] name = 0 := by
      intro name hname
      have hready := (mem_released_iff.1 (hsub.subset hname)).2
      simpa using (releasedAt_le_length_iff []).2 hready
    right
    refine ⟨?_, hsub.trans (released_sublist [] g.vertices)⟩
    rw [hreleased a (by simp), hreleased b (by simp)]
  declared := unreleased_sublist [] g.vertices

/-- Taking one name from the queue.  What it releases comes after all names that were ready
    before, since these do not depend on it. -/
theorem Sorting.step {done queue waiting : List String} {name : String}
    (h : g.Sorting done (name :: queue) waiting) :
    g.Sorting (done ++ [name]) (queue ++ (g.release (done ++ [name]) waiting).1)
      (g.release (done ++ [name]) waiting).2 where
  toDraining := h.toDraining.step
  sorted := by
    have hsplit : done ++ [name] ++ (queue ++ (g.release (done ++ [name]) waiting).1) =
        (done ++ name :: queue) ++ (g.release (done ++ [name]) waiting).1 := by
      simp
    rw [hsplit, List.pairwise_append]
    have hready : ∀ a ∈ done ++ name :: queue, ∀ dependency, g.Edge dependency a → dependency ∈ done :=
      fun a ha => h.dependencies_done ha
    have hreleased : ∀ b ∈ (g.release (done ++ [name]) waiting).1,
        g.releasedAt (done ++ [name]) b = done.length + 1 :=
      fun b hb => releasedAt_of_released h.blocked hb
    -- old pairs keep their order, new names have that of declaration, and all new ones come later
    refine ⟨?_, ?_, ?_⟩
    · refine h.sorted.imp_of_mem ?_
      intro a b ha hb hprecedes
      exact hprecedes.append (hready a ha) (hready b hb) [name]
    · rw [List.pairwise_iff_forall_sublist]
      intro a b hsub
      right
      refine ⟨?_, (hsub.trans (released_sublist _ waiting)).trans h.declared⟩
      rw [hreleased a (hsub.subset (by simp)), hreleased b (hsub.subset (by simp))]
    · intro a ha b hb
      left
      have hle : g.releasedAt (done ++ [name]) a ≤ done.length :=
        (releasedAt_le_length_iff [name]).2 (hready a ha)
      rw [hreleased b hb]
      omega
  declared := (unreleased_sublist _ waiting).trans h.declared

/-- The order of a graph is sorted by release, and by declaration among names that are
    released together. -/
theorem order_pairwise_precedes : g.order.Pairwise (g.Precedes g.order) := by
  obtain ⟨rest, h⟩ := order_induction sorting_start fun _ _ _ _ => Sorting.step
  simpa using h.sorted

/-! ## Declaration order -/

/-- A list on which a test fails from some place on is cut in two by it. -/
theorem filter_append_filter_not {α : Type} {p : α → Bool} {l : List α}
    (h : l.Pairwise fun a b => p b = true → p a = true) :
    l.filter p ++ l.filter (fun a => !p a) = l := by
  induction l with
  | nil => rfl
  | cons a l ih =>
    obtain ⟨ha, hl⟩ := List.pairwise_cons.1 h
    by_cases hp : p a = true
    · simp [hp, ih hl]
    · have hfails : ∀ b ∈ l, p b = false := by
        intro b hb
        by_contra hne
        exact hp (ha b hb (by simpa using hne))
      have hnone : l.filter p = [] := List.filter_eq_nil_iff.2 fun b hb => by simp [hfails b hb]
      have hall : l.filter (fun b => !p b) = l :=
        List.filter_eq_self.2 fun b hb => by simp [hfails b hb]
      simp [hp, hnone, hall]

/-- Among names that are declared in the order of their release, those that are released
    while the first names are done come first. -/
theorem release_append_of_pairwise (done rest : List String) {waiting : List String}
    (h : waiting.Pairwise fun a b => g.releasedAt (done ++ rest) a ≤ g.releasedAt (done ++ rest) b) :
    (g.release done waiting).1 ++ (g.release done waiting).2 = waiting := by
  have hready : ∀ name, (g.dependencies name).all (· ∈ done) = true ↔
      g.releasedAt (done ++ rest) name ≤ done.length := by
    intro name
    rw [releasedAt_le_length_iff]
    simp
  rw [release_eq]
  refine filter_append_filter_not (h.imp ?_)
  intro a b hle hb
  rw [hready] at hb ⊢
  omega

/-- Names that are declared in the order of their release stay in one row: first those that
    are done, then the queue, then those that wait. -/
theorem exists_order_append_eq_vertices
    (h : g.vertices.Pairwise fun a b => g.releasedAt g.vertices a ≤ g.releasedAt g.vertices b) :
    ∃ rest, g.order ++ rest = g.vertices := by
  have hstart : [] ++ (g.release [] g.vertices).1 ++ (g.release [] g.vertices).2 = g.vertices :=
    release_append_of_pairwise [] g.vertices h
  have hstep : ∀ done name queue waiting, done ++ name :: queue ++ waiting = g.vertices →
      done ++ [name] ++ (queue ++ (g.release (done ++ [name]) waiting).1) ++
        (g.release (done ++ [name]) waiting).2 = g.vertices := by
    intro done name queue waiting hrow
    have hvertices : g.vertices = (done ++ [name]) ++ (queue ++ waiting) := by
      rw [← hrow]
      simp
    have hwaiting : waiting.Sublist g.vertices := by
      rw [← hrow]
      exact List.sublist_append_right _ _
    have hpairwise := h.sublist hwaiting
    rw [hvertices] at hpairwise
    -- the released names are the first that wait, so the row does not change
    have hreleased := release_append_of_pairwise (done ++ [name]) (queue ++ waiting) hpairwise
    calc done ++ [name] ++ (queue ++ (g.release (done ++ [name]) waiting).1) ++
          (g.release (done ++ [name]) waiting).2
        = done ++ [name] ++ (queue ++ ((g.release (done ++ [name]) waiting).1 ++
            (g.release (done ++ [name]) waiting).2)) := by simp only [List.append_assoc]
      _ = done ++ [name] ++ (queue ++ waiting) := by rw [hreleased]
      _ = g.vertices := hvertices.symm
  obtain ⟨rest, hrow⟩ := order_induction
    (P := fun done queue waiting => done ++ queue ++ waiting = g.vertices) hstart hstep
  exact ⟨rest, by simpa using hrow⟩

/-- Names come out as they are declared exactly if they are declared in the order of their
    release. -/
theorem sort?_eq_vertices_iff {order : List String} (h : g.sort? = some order) :
    order = g.vertices ↔
      g.vertices.Pairwise fun a b => g.releasedAt g.vertices a ≤ g.releasedAt g.vertices b := by
  obtain ⟨rfl, hlength⟩ := sort?_eq_some_iff.1 h
  constructor
  · intro heq
    have hsorted := order_pairwise_precedes (g := g)
    rw [heq] at hsorted
    refine hsorted.imp ?_
    rintro a b (hlt | ⟨hsame, _⟩)
    · exact hlt.le
    · exact hsame.le
  · intro hdeclared
    obtain ⟨rest, hrow⟩ := exists_order_append_eq_vertices hdeclared
    -- no name is left over
    have hrest : rest = [] := by
      have hall := congrArg List.length hrow
      rw [List.length_append] at hall
      exact List.eq_nil_of_length_eq_zero (by omega)
    rwa [hrest, List.append_nil] at hrow

end StackIr.Ir.DependencyGraph

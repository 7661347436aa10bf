import StackIr.OrderedMap

/-! # Dependency order

    A graph of names in declaration order with edges from each name to those that depend on
    it.  An edge that would close a cycle is not added.  The order of a graph takes names
    from a queue: first those without dependencies, and after each name those that it
    releases, always in declaration order. -/

namespace StackIr.Ir

/-- Names and the dependencies between them. -/
structure DependencyGraph where
  /-- The names in declaration order. -/
  vertices : List String
  /-- Pairs of a name and one that depends on it. -/
  edges : List (String × String)
  deriving Repr

namespace DependencyGraph

/-- The graph of some names without dependencies. -/
def ofNames (names : List String) : DependencyGraph :=
  ⟨names, []⟩

/-- Adds a name behind the others, unless it is there. -/
def addVertex? (g : DependencyGraph) (name : String) : Option DependencyGraph :=
  if name ∈ g.vertices then none else some ⟨g.vertices ++ [name], g.edges⟩

/-- The names that a name depends on directly. -/
def dependencies (g : DependencyGraph) (name : String) : List String :=
  g.edges.filterMap fun (source, target) => if target = name then some source else none

/-- The names that depend directly on one of some names. -/
def dependents (g : DependencyGraph) (names : List String) : List String :=
  g.edges.filterMap fun (source, target) => if source ∈ names then some target else none

/-! ## Cycles -/

/-- Whether `goal` is found by following edges from the names in `frontier`.  Names outside
    `unseen` have been followed before. -/
def search (g : DependencyGraph) (goal : String) :
    (fuel : Nat) → (unseen frontier : List String) → Bool
  | 0, _, frontier => goal ∈ frontier
  | fuel + 1, unseen, frontier =>
    if goal ∈ frontier then true
    else
      let found := g.dependents frontier
      let next := unseen.filter (· ∈ found)
      if next.isEmpty then false
      else search g goal fuel (unseen.filter (· ∉ next)) next

/-- Whether one name is another or is reached from it through edges. -/
def reaches (g : DependencyGraph) (start goal : String) : Bool :=
  search g goal g.vertices.length (g.vertices.filter (· ≠ start)) [start]

/-- Why an edge is not added. -/
inductive EdgeFault where
  | missingSource
  | closesCycle
  deriving DecidableEq, Repr

/-- Adds an edge from a name to one that depends on it.  An edge that is there is not added
    again. -/
def addEdge (g : DependencyGraph) (source target : String) :
    Except EdgeFault DependencyGraph :=
  if source ∉ g.vertices then .error .missingSource
  else if (source, target) ∈ g.edges then .ok g
  else if g.reaches target source then .error .closesCycle
  else .ok ⟨g.vertices, g.edges ++ [(source, target)]⟩

/-! ## Order -/

/-- The names of `waiting` all of whose dependencies are in `done`, and the other names. -/
def release (g : DependencyGraph) (done waiting : List String) : List String × List String :=
  waiting.partition fun name => (g.dependencies name).all (· ∈ done)

/-- Takes names from the queue.  After each name, the names that it releases join the end of
    the queue. -/
def drain (g : DependencyGraph) :
    (fuel : Nat) → (done queue waiting : List String) → List String
  | 0, done, _, _ => done
  | _, done, [], _ => done
  | fuel + 1, done, name :: queue, waiting =>
    let done := done ++ [name]
    let (released, waiting) := g.release done waiting
    drain g fuel done (queue ++ released) waiting

/-- The names in dependency order; names on a cycle are missing. -/
def order (g : DependencyGraph) : List String :=
  let (free, waiting) := g.release [] g.vertices
  drain g g.vertices.length [] free waiting

/-- The names in dependency order, if all of them can be ordered. -/
def sort? (g : DependencyGraph) : Option (List String) :=
  let names := g.order
  if names.length = g.vertices.length then some names else none

end DependencyGraph

end StackIr.Ir

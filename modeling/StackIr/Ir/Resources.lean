import StackIr.Ir.Dependencies
import StackIr.Ir.References
import StackIr.Ir.TypeName

/-! # Resources

    Resources are put into an order in which each comes after those it depends on, by
    declaration or by reference. -/

namespace StackIr.Ir

/-- A resource with the resources that it refers to. -/
structure ResourceInstruction where
  name : String
  type : TypeName
  condition : String
  dependsOn : Option (List String)
  /-- The resources that the properties refer to, in order and each once. -/
  references : List String
  deletionPolicy : String
  updateReplacePolicy : String
  properties : Option (List (String × Value))

namespace ResourceInstruction

/-- The names that a resource depends on: declared ones first. -/
def dependencies (r : ResourceInstruction) : List String :=
  r.dependsOn.getD [] ++ r.references

def toJson (r : ResourceInstruction) : Json :=
  .object ([("name", .string r.name), ("type", r.type.toJson)] ++
    Json.textMember "condition" r.condition ++
    Json.textsMember "dependsOn" (r.dependsOn.getD []) ++
    Json.textsMember "references" r.references ++
    Json.textMember "deletionPolicy" r.deletionPolicy ++
    Json.textMember "updateReplacePolicy" r.updateReplacePolicy ++
    (match r.properties.getD [] with
      | [] => []
      | fields => [("properties", (Value.object fields).toJson)]))

end ResourceInstruction

/-- The instruction of a resource. -/
def resourceInstruction (refs : Resolver) (name : String) (r : Resource) :
    Except Failure ResourceInstruction := do
  let type ← TypeName.parse r.type
  checkCondition refs r.condition
  let found ← references refs (.object (r.properties.getD []))
  pure {
    name := name
    type := type
    condition := r.condition
    dependsOn := r.dependsOn
    references := Fields.sortedKeys found
    deletionPolicy := r.deletionPolicy
    updateReplacePolicy := r.updateReplacePolicy
    properties := r.properties }

/-- Adds the names of resources to a graph. -/
def addNames (g : DependencyGraph) : List String → Except Failure DependencyGraph
  | [] => .ok g
  | name :: rest =>
    match g.addVertex? name with
    | some g => addNames g rest
    | none =>
      noting ("resource " ++ Text.quote name) (.error (.assembly .repeatedVertex))

/-- Adds the dependencies of a resource to a graph. -/
def addDependencies (g : DependencyGraph) (name : String) :
    List String → Except Failure DependencyGraph
  | [] => .ok g
  | dependency :: rest =>
    match g.addEdge dependency name with
    | .ok g => addDependencies g name rest
    | .error .missingSource => .error (.assembly (.missingVertex dependency))
    | .error .closesCycle => .error (.assembly (.cycle dependency name))

/-- Checks that declared dependencies are resources. -/
def checkDependsOn (names : List String) : List String → Except Failure Unit
  | [] => .ok ()
  | name :: rest =>
    if name ∈ names then checkDependsOn names rest
    else .error (.assembly (.unknownDependency name))

/-- The instruction of a resource, and the graph with its dependencies. -/
def addResource (refs : Resolver) (names : List String) (g : DependencyGraph) (name : String)
    (r : Resource) : Except Failure (ResourceInstruction × DependencyGraph) := do
  let instruction ← resourceInstruction refs name r
  checkDependsOn names (instruction.dependsOn.getD [])
  let g ← addDependencies g name instruction.dependencies
  pure (instruction, g)

/-- The instructions of some resources in declaration order, and the graph with their
    dependencies. -/
def addResources (refs : Resolver) (names : List String) (g : DependencyGraph) :
    List (String × Resource) → Except Failure (List ResourceInstruction × DependencyGraph)
  | [] => .ok ([], g)
  | (name, r) :: rest => do
    let (instruction, g) ←
      noting ("resource " ++ Text.quote name) (addResource refs names g name r)
    let (instructions, g) ← addResources refs names g rest
    pure (instruction :: instructions, g)

/-- The instructions of a section of resources in dependency order.  No resources give
    none. -/
def orderResources (refs : Resolver) (s : Section Resource) :
    Except Failure (Option (List ResourceInstruction)) :=
  match Section.entries s with
  | [] => .ok none
  | entries => do
    let names := entries.map Prod.fst
    let g ← addNames (.ofNames []) names
    let (instructions, g) ← addResources refs names g entries
    match g.sort? with
    | none => throw (.assembly .unordered)
    | some order =>
      pure (some (order.filterMap fun name => instructions.find? (·.name = name)))

end StackIr.Ir

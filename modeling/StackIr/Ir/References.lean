import StackIr.Ir.Lower

/-! # References of values

    The resources that a value refers to, by name, by attribute or in a substitution string.
    Names that are not those of resources are passed over. -/

namespace StackIr.Ir

/-- A name if it is that of a resource. -/
def resourceName (refs : Resolver) (name : String) : List String :=
  if refs.origin? name = some .resource then [name] else []

/-- The resource that a variable refers to, unless the string binds it itself. -/
def variableReferences (refs : Resolver) (bound : List String) (name : String) : List String :=
  if name ∈ bound then []
  else resourceName refs ((Substitution.attributeResource? name).getD name)

/-- The resources that the variables of a substitution string refer to. -/
def textReferences (refs : Resolver) (text : String) (bound : List String) :
    Except Failure (List String) :=
  (noting "Fn::Sub" (tokensOf text)).map fun tokens =>
    (Substitution.variableNames tokens).flatMap (variableReferences refs bound)

/-- The names that the argument of a substitution binds. -/
def boundNames : Value → List String
  | .object vars => vars.map Prod.fst
  | _ => []

mutual

/-- The resources that a value refers to, with repetitions. -/
def references (refs : Resolver) : Value → Except Failure (List String)
  | .list items => referencesOfItems refs items
  | .object [(key, arg)] =>
    if key = "Ref" then
      match arg with
      | .string name => .ok (resourceName refs name)
      | arg => references refs arg
    else if key = "Fn::GetAtt" then
      match arg with
      | .string s => .ok (resourceName refs (Text.cut "." s).1)
      | .list [] => .ok []
      | .list (first :: rest) => do
        let more ← referencesOfItems refs rest
        pure ((first.string?.map (resourceName refs)).getD [] ++ more)
      | arg => references refs arg
    else if key = "Fn::Sub" then
      match arg with
      | .string text => textReferences refs text []
      | .list [first] => textReferences refs (first.string?.getD "") []
      | .list (first :: vars :: _) => do
        let inVars ← references refs vars
        let inText ← textReferences refs (first.string?.getD "") (boundNames vars)
        pure (inVars ++ inText)
      | _ => .ok []
    else references refs arg
  | .object fields => referencesOfFields refs fields
  | _ => .ok []

/-- The resources that the items of a list refer to. -/
def referencesOfItems (refs : Resolver) : List Value → Except Failure (List String)
  | [] => .ok []
  | v :: vs => do
    let found ← references refs v
    let more ← referencesOfItems refs vs
    pure (found ++ more)

/-- The resources that the fields of an object refer to. -/
def referencesOfFields (refs : Resolver) :
    List (String × Value) → Except Failure (List String)
  | [] => .ok []
  | (_, v) :: rest => do
    let found ← references refs v
    let more ← referencesOfFields refs rest
    pure (found ++ more)

end

end StackIr.Ir

import StackIr.Failure
import StackIr.Ir.Expr

/-! # From values to expressions

    Lowering turns a template value into an expression and checks every reference in it. -/

namespace StackIr.Ir

/-- The use of a name that is not allowed. -/
def unresolved {α : Type} (name fn : String) (origin : Option Origin) : Except Failure α :=
  .error (.assembly (.unresolved ⟨name, fn, origin⟩))

/-- An argument that has the wrong form. -/
def malformed {α : Type} (argument : Malformed) : Except Failure α :=
  .error (.assembly (.malformed argument))

/-- Checks that a condition is declared; the empty name is no condition. -/
def checkCondition (refs : Resolver) (name : String) : Except Failure Unit :=
  if name = "" || refs.isCondition name then .ok ()
  else unresolved name "Condition" (refs.origin? name)

/-- Checks that a name is that of a resource. -/
def checkResource (refs : Resolver) (name fn : String) : Except Failure Unit :=
  match refs.origin? name with
  | some .resource => .ok ()
  | origin => unresolved name fn origin

/-- Checks that a name has a value, and gives its origin. -/
def checkReferable (refs : Resolver) (name fn : String) : Except Failure Origin :=
  match refs.origin? name with
  | some origin => if origin.isReferable then .ok origin else unresolved name fn (some origin)
  | none => unresolved name fn none

/-- Checks a variable of a substitution string that binds the names `bound` itself. -/
def checkVariable (refs : Resolver) (bound : List String) (name : String) :
    Except Failure Unit :=
  if name ∈ bound then .ok ()
  else
    match Substitution.attributeResource? name with
    | some resource => checkResource refs resource "Fn::Sub"
    | none => (checkReferable refs name "Fn::Sub").map fun _ => ()

/-- Checks the variables of a substitution string from left to right. -/
def checkVariables (refs : Resolver) (bound : List String) :
    List String → Except Failure Unit
  | [] => .ok ()
  | name :: names => do
    checkVariable refs bound name
    checkVariables refs bound names

/-- The tokens of a substitution string. -/
def tokensOf (text : String) : Except Failure (List (Substitution.Token String)) :=
  (Substitution.scanString text).mapError fun u => .assembly (.unterminated u)

/-- The reference to a name. -/
def lowerRef (refs : Resolver) : Value → Except Failure Expr
  | .string name => (checkReferable refs name "Ref").map (.ref name ·)
  | args => malformed (.refName args.typeName)

/-- The resource and the attribute that an argument names. -/
def attributeParts : Value → String × String
  | .string s => Text.cut "." s
  | .list [resource, attr] => (resource.string?.getD "", attr.string?.getD "")
  | _ => ("", "")

/-- The reference to an attribute of a resource. -/
def lowerGetAtt (refs : Resolver) (args : Value) : Except Failure Expr :=
  let (resource, attr) := attributeParts args
  if resource = "" || attr = "" then malformed (.attributeArgument args.display)
  else (checkResource refs resource "Fn::GetAtt").map fun _ => .getAtt resource attr

/-- A substitution string whose bound variables are lowered by `bound`. -/
def lowerSub (refs : Resolver) (text : String) (bound : Except Failure (List (String × Expr))) :
    Except Failure Expr := do
  let tokens ← noting "Fn::Sub" (tokensOf text)
  let bound ← bound
  checkVariables refs (bound.map Prod.fst) (Substitution.variableNames tokens)
  pure (.sub tokens bound)

/-- What is wrong with the argument of a substitution that is neither a string nor a string
    with its variables. -/
def malformedSub : Value → Malformed
  | .list [.string _, vars] => .subVariables vars.typeName
  | .list [text, _] => .subText text.typeName
  | .list items => .subCount items.length
  | args => .subArgument args.typeName

/-- Whether a key is that of a function. -/
def isIntrinsic (key : String) : Bool :=
  key = "Ref" || key = "Condition" || Text.startsWith key "Fn::"

mutual

/-- The expression of a value. -/
def lower (refs : Resolver) : Value → Except Failure Expr
  | .string s => .ok (.string s)
  | .prim p => .ok (.scalar p)
  | .list items => (lowerItems refs 0 items).map .list
  | .object [(fn, args)] =>
    if fn = "Ref" then lowerRef refs args
    else if fn = "Fn::GetAtt" then lowerGetAtt refs args
    else if fn = "Fn::Sub" then
      match args with
      | .string text => lowerSub refs text (.ok [])
      | .list [.string text, .object vars] => lowerSub refs text (lowerBound refs vars)
      | args => malformed (malformedSub args)
    else if isIntrinsic fn then do
      if fn = "Condition" then checkCondition refs (args.string?.getD "")
      (noting fn (lower refs args)).map (.intrinsic fn ·)
    else (noting fn (lower refs args)).map fun e => .object [(fn, e)]
  | .object fields => (lowerFields refs fields).map .object
  | .foreign f => malformed (.unsupported f.typeName)

/-- The expressions of the items of a list, the first of which has the given position. -/
def lowerItems (refs : Resolver) (position : Nat) : List Value → Except Failure (List Expr)
  | [] => .ok []
  | v :: vs => do
    let e ← noting ("[" ++ Nat.repr position ++ "]") (lower refs v)
    let es ← lowerItems refs (position + 1) vs
    pure (e :: es)

/-- The expressions of the fields of an object. -/
def lowerFields (refs : Resolver) : List (String × Value) → Except Failure (List (String × Expr))
  | [] => .ok []
  | (key, v) :: rest => do
    let e ← noting key (lower refs v)
    let es ← lowerFields refs rest
    pure ((key, e) :: es)

/-- The expressions of the variables that a substitution string binds. -/
def lowerBound (refs : Resolver) : List (String × Value) → Except Failure (List (String × Expr))
  | [] => .ok []
  | (name, v) :: rest => do
    let e ← noting ("Fn::Sub variable " ++ Text.quote name) (lower refs v)
    let es ← lowerBound refs rest
    pure ((name, e) :: es)

end

end StackIr.Ir

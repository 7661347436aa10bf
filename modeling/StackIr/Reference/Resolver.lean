import StackIr.Reference.NameTable

/-! # Resolving names

    A resolver tells where a name comes from.  Conditions have names of their own: a
    condition may have the name of a parameter or a resource. -/

namespace StackIr

/-- What is known about names. -/
structure Resolver where
  origin? : String → Option Origin
  isCondition : String → Bool

namespace Resolver

/-- A resolver that knows no names. -/
def empty : Resolver :=
  ⟨fun _ => none, fun _ => false⟩

/-- A resolver that knows the names of a template. -/
def ofTemplate (t : Template) : Resolver :=
  let table := NameTable.ofTemplate t
  ⟨table.origin?, table.isCondition⟩

end Resolver

/-- A use of a name that its origin does not allow. -/
structure Unresolved where
  name : String
  /-- The function that uses the name. -/
  intrinsic : String
  /-- Where the name comes from, if it is known at all. -/
  origin : Option Origin
  deriving DecidableEq, Repr

namespace Unresolved

/-- The number of the origin, zero for none. -/
def originNumber (u : Unresolved) : Int :=
  (u.origin.map Origin.number).getD 0

def message (u : Unresolved) : String :=
  let undeclared := u.intrinsic ++ ": " ++ Text.quote u.name ++ " is not declared"
  match u.origin with
  | some origin =>
    if origin.number = 0 then undeclared
    else
      u.intrinsic ++ ": " ++ Text.quote u.name ++ " is a " ++ origin.name ++
        " and cannot be referenced this way"
  | none => undeclared

end Unresolved

end StackIr

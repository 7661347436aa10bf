import StackIr.Failure
import StackIr.Text.LowerCase

/-! # Resource types and imports

    A resource type names an organization, a service and a kind.  The resources of one
    service share an import. -/

namespace StackIr.Ir

/-- A resource type such as `AWS::S3::Bucket`. -/
structure TypeName where
  organization : String
  service : String
  /-- What follows the service; it may be empty. -/
  kind : String
  deriving DecidableEq, Repr

/-- A library that the resources of one service need. -/
structure Import where
  organization : String
  service : String
  deriving DecidableEq, Repr

namespace TypeName

/-- What stands between the parts of a type. -/
def separator : String := "::"

/-- The parts of a resource type.  Organization and service must not be empty. -/
def parse? (type : String) : Option TypeName := do
  let (organization, rest) ← Text.cut? separator type
  let (service, kind) := Text.cut separator rest
  if organization = "" || service = "" then none
  else some ⟨organization, service, kind⟩

/-- The parts of a resource type, or the fault that it is none. -/
def parse (type : String) : Except Failure TypeName :=
  match parse? type with
  | some name => .ok name
  | none => .error (.assembly (.invalidType type))

def toString (t : TypeName) : String :=
  if t.kind = "" then t.organization ++ separator ++ t.service
  else t.organization ++ separator ++ t.service ++ separator ++ t.kind

/-- The import that a resource type needs. -/
def toImport (t : TypeName) : Import :=
  ⟨Text.lower t.organization, Text.lower t.service⟩

def toJson (t : TypeName) : Json :=
  .object ([("organization", .string t.organization), ("service", .string t.service)] ++
    Json.textMember "kind" t.kind)

end TypeName

namespace Import

/-- The default module of an import. -/
def modulePath (i : Import) : String :=
  "aws-cdk-lib/" ++ i.organization ++ "-" ++ i.service

/-- The name that the module is imported as. -/
def shortName (i : Import) : String :=
  i.service

/-- The default import statement. -/
def statement (i : Import) : String :=
  "import * as " ++ i.shortName ++ " from '" ++ i.modulePath ++ "';"

def toString (i : Import) : String :=
  i.organization ++ "/" ++ i.service

def toJson (i : Import) : Json :=
  .object [("organization", .string i.organization), ("service", .string i.service)]

/-- Imports are ordered by organization, then by service. -/
def before (a b : Import) : Bool :=
  if a.organization ≠ b.organization then a.organization < b.organization
  else a.service < b.service

/-- Puts an import into its place among imports in order, once. -/
def insert (i : Import) : List Import → List Import
  | [] => [i]
  | j :: rest =>
    if i = j then j :: rest
    else if i.before j then i :: j :: rest
    else j :: insert i rest

/-- The imports that some resource types need, in order and each once.  If types are
    invalid, each of them is reported. -/
def ofTypes (types : List String) : Except Failure (List Import) :=
  let faults := types.filterMap fun type =>
    if (TypeName.parse? type).isNone then some (Failure.assembly (.invalidType type)) else none
  match Failures.toFailure? faults with
  | some failure => .error failure
  | none =>
    .ok ((types.filterMap TypeName.parse?).foldl (fun imports t => insert t.toImport imports) [])

end Import

end StackIr.Ir

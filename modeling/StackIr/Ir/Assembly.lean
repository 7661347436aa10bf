import StackIr.Fingerprint.XxHash
import StackIr.Ir.Constructor
import StackIr.Ir.Mappings
import StackIr.Ir.Outputs
import StackIr.Ir.Resources

/-! # Assembly

    A template and a resolver of its names give the intermediate representation: the inputs
    of the stack, its mappings, conditions, resources and outputs, and the libraries it
    needs.

    The fingerprint of an intermediate representation is the hash of its compact text, so
    equal representations have equal fingerprints. -/

namespace StackIr

/-- A condition, which is carried along unevaluated. -/
structure Ir.ConditionInstruction where
  name : String
  expression : Value

/-- The intermediate representation of a stack. -/
structure Ir where
  description : String := ""
  constructor : Option (List Ir.ConstructorParameter) := none
  mappings : Option (List Ir.MappingInstruction) := none
  conditions : Option (List Ir.ConditionInstruction) := none
  resources : Option (List Ir.ResourceInstruction) := none
  outputs : Option (List Ir.OutputInstruction) := none
  imports : Option (List Ir.Import) := none

namespace Ir

def ConditionInstruction.toJson (c : ConditionInstruction) : Json :=
  .object [("name", .string c.name), ("expression", c.expression.toJson)]

/-- The conditions of a section, in declaration order. -/
def passConditions : Section Value → Option (List ConditionInstruction)
  | none => none
  | some conditions => some (conditions.entries.map fun (name, v) => ⟨name, v⟩)

/-- A step of assembly that was completed. -/
inductive Progress where
  | resolvedImports (count : Nat)
  | orderedResources (count : Nat)
  | assembled (parameters mappings conditions outputs : Nat)
  deriving DecidableEq, Repr

/-- The length of a section that may be absent. -/
def count {α : Type} (items : Option (List α)) : Nat :=
  (items.getD []).length

/-- Assembles a template, and tells which steps were completed. -/
def assembleSteps (refs : Resolver) (t : Template) : List Progress × Except Failure Ir :=
  match Import.ofTypes t.resourceTypes with
  | .error failure => ([], .error failure)
  | .ok imports =>
    let steps := [Progress.resolvedImports imports.length]
    match orderResources refs t.resources with
    | .error failure => (steps, .error failure)
    | .ok resources =>
      let steps := steps ++ [.orderedResources (count resources)]
      match lowerOutputs refs t.outputs with
      | .error failure => (steps, .error failure)
      | .ok outputs =>
        let ir : Ir := {
          description := t.description
          constructor := deriveParameters t.parameters
          mappings := classifyMappings t.mappings
          conditions := passConditions t.conditions
          resources := resources
          outputs := outputs
          imports := some imports }
        (steps ++ [.assembled (count ir.constructor) (count ir.mappings) (count ir.conditions)
          (count ir.outputs)], .ok ir)

/-- The intermediate representation of a template. -/
def assemble (refs : Resolver) (t : Template) : Except Failure Ir :=
  (assembleSteps refs t).2

/-- The intermediate representation of a template that may be missing, with a resolver that
    may be missing. -/
def assemble? (refs : Option Resolver) (t : Option Template) : Except Failure Ir :=
  match t, refs with
  | none, _ => .error (.assembly .noTemplate)
  | some _, none => .error (.assembly .noResolver)
  | some t, some refs => assemble refs t

/-- The intermediate representation of a template whose own declarations resolve its
    names. -/
def ofTemplate (t : Template) : Except Failure Ir :=
  assemble (.ofTemplate t) t

/-- The JSON document of an intermediate representation. -/
def toJson (ir : Ir) : Json :=
  .object (Json.textMember "description" ir.description ++
    [ ("constructor", Json.arrayOrNull ConstructorParameter.toJson ir.constructor),
      ("mappings", Json.arrayOrNull MappingInstruction.toJson ir.mappings),
      ("conditions", Json.arrayOrNull ConditionInstruction.toJson ir.conditions),
      ("resources", Json.arrayOrNull ResourceInstruction.toJson ir.resources),
      ("outputs", Json.arrayOrNull OutputInstruction.toJson ir.outputs),
      ("imports", Json.arrayOrNull Import.toJson ir.imports) ])

/-- What an intermediate representation is refused for.  The outputs come last, and of all
    parts only their expressions are encoded on their own. -/
def refusal? (ir : Ir) : Option Json.Refusal :=
  { ir with outputs := none }.toJson.numberRefusal?.or
    ((ir.outputs.getD []).findSome? OutputInstruction.refusal?)

/-- The compact JSON text of an intermediate representation. -/
def encode (ir : Ir) : Except Failure String :=
  (Json.textUnless ir.refusal? (ir.toJson.compact .safe)).mapError fun r => .cause (.encoding r)

/-- The indented JSON text of an intermediate representation, which is made by reading the
    compact text. -/
def encodeIndented (ir : Ir) : Except Failure String :=
  (Json.textUnless (ir.refusal?.or ir.toJson.tooDeep?) (ir.toJson.indented .safe 0)).mapError
    fun r => .cause (.encoding r)

/-- The fingerprint of an intermediate representation. -/
def fingerprint (ir : Ir) : Except Failure UInt64 :=
  ir.encode.map fun text => Fingerprint.hash (Text.Utf8.encode text)

end Ir

end StackIr

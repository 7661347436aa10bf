import StackIr.Ir.Assembly
import StackIr.Text.Path

/-! # Summaries

    A plain text overview of an intermediate representation.  Sections without entries are
    left out. -/

namespace StackIr.Report

/-- A section with a heading and a line for each entry. -/
def sectionLines {α : Type} (heading : Nat → String) (items : Option (List α))
    (line : α → String) : String :=
  match items.getD [] with
  | [] => ""
  | item :: items =>
    "\n\n" ++ heading (items.length + 1) ++
      String.join ((item :: items).map fun x => "\n  " ++ line x)

/-- The heading of a section with its number of entries. -/
def counted (name : String) (n : Nat) : String :=
  name ++ " (" ++ Nat.repr n ++ "):"

/-- A name in its column. -/
def nameColumn (name : String) : String :=
  Text.padRight 24 name ++ " "

def parameterLine (p : Ir.ConstructorParameter) : String :=
  nameColumn p.name ++ p.type ++
    (match p.default with
      | some text => " = " ++ text
      | none => "") ++
    (if p.noEcho then " (no echo)" else "")

def mappingLine (m : Ir.MappingInstruction) : String :=
  nameColumn m.name ++ (m.classification.map Ir.Classification.summary).getD "<nil>"

def resourceLine (r : Ir.ResourceInstruction) : String :=
  nameColumn r.name ++ r.type.toString ++
    (if r.references.isEmpty then "" else " <- " ++ String.intercalate ", " r.references)

def outputLine (o : Ir.OutputInstruction) : String :=
  nameColumn o.name ++ (o.value.map Ir.Expr.kind).getD "<nil>" ++
    (if o.exported.isSome then " (exported)" else "")

/-- The summary of a representation that was assembled from `source`. -/
def summaryText (source : String) (fingerprint : UInt64) (ir : Ir) : String :=
  Text.Path.base source ++ (if ir.description = "" then "" else ": " ++ ir.description) ++
    "\nfingerprint " ++ Fingerprint.hex fingerprint ++
    sectionLines (counted "parameters") ir.constructor parameterLine ++
    sectionLines (counted "mappings") ir.mappings mappingLine ++
    sectionLines (counted "conditions") ir.conditions (·.name) ++
    sectionLines (counted "resources") ir.resources resourceLine ++
    sectionLines (counted "outputs") ir.outputs outputLine ++
    sectionLines (fun _ => "imports:") ir.imports Ir.Import.statement ++ "\n"

/-- The summary of a representation, which needs its fingerprint. -/
def summary (source : String) (ir : Ir) : Except Failure String :=
  (noting ("could not fingerprint " ++ source) ir.fingerprint).map fun h => summaryText source h ir

end StackIr.Report

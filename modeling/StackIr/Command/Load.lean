import StackIr.Command.Basic
import StackIr.Command.Session
import StackIr.Ir.Assembly
import StackIr.Template.Decode

/-! # Loading templates -/

namespace StackIr.Command

/-- The template in a file. -/
def loadTemplate (files : Files.Tree) (path : String) : Except Stop Template := do
  let item ← (files.find path).mapError fun fault => .failed (.cause (.file fault))
  let bytes ← Stop.noting "could not read template"
    ((item.read path).mapError fun fault => .failed (.cause (.file fault)))
  Template.parse bytes

/-- Logs a step of assembly. -/
def logProgress (l : Log.Logger) : Ir.Progress → Run Unit
  | .resolvedImports n => log l .debug "resolved imports" [.count "count" n]
  | .orderedResources n => log l .debug "ordered resources" [.count "count" n]
  | .assembled parameters mappings conditions outputs =>
    log l .debug "assembled" [.count "parameters" parameters, .count "mappings" mappings,
      .count "conditions" conditions, .count "outputs" outputs]

/-- The number of entries of a section of a template. -/
def sectionSize {α : Type} (s : Section α) : Nat :=
  (Section.entries s).length

/-- Assembles a template. -/
def assembleTemplate (l : Log.Logger) (t : Template) : Run (Except Failure Ir) := do
  log l .debug "parsed template" [.count "parameters" (sectionSize t.parameters),
    .count "resources" (sectionSize t.resources), .count "outputs" (sectionSize t.outputs)]
  let (steps, result) := Ir.assembleSteps (.ofTemplate t) t
  steps.forM (logProgress (l.named "ir"))
  match result with
  | .error failure => return .error failure
  | .ok ir =>
    (ir.resources.getD []).forM fun r =>
      log l .debug "resource" [.resource r.name r.type.toString]
    return .ok ir

/-- Loads a template from a file and assembles it. -/
def assembleFile (l : Log.Logger) (path : String) : Unbounded (Except Failure Ir) := do
  match loadTemplate (← get).files path with
  | .error .endless => throw .endless
  | .error (.failed failure) => return .error failure
  | .ok t => assembleTemplate l t

end StackIr.Command

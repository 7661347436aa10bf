import StackIr.Command.Load
import StackIr.Files.Output
import StackIr.Ir.Assembly
import StackIr.Yaml.Node.Printer

/-! # Translating templates

    Every template is translated on its own, in any order.  The results are put back into
    the order of the templates, and documents with one name are not written over each
    other. -/

namespace StackIr.Command

/-! ## Documents -/

/-- The format of a document. -/
inductive Format where
  | json
  | yaml
  deriving DecidableEq, Repr

def Format.name : Format → String
  | .json => "json"
  | .yaml => "yaml"

def Format.ofName? (name : String) : Option Format :=
  if name = "json" then some .json else if name = "yaml" then some .yaml else none

/-- The text of a representation. -/
def Format.encode (f : Format) (ir : Ir) : Except Failure String := do
  let text ← ir.encodeIndented
  match f with
  | .json => return text ++ "\n"
  | .yaml => Yaml.reformat 2 (Text.Utf8.encode text)

/-- The name of the document of a template: its own name with another ending. -/
def outputName (path : String) (format : Format) : String :=
  Text.Path.stem path ++ ".ir." ++ format.name

/-! ## Results -/

/-- A template and what came of it: its document, or a failure. -/
structure Attempt where
  source : String
  result : Except Failure Files.Document

/-- The results of `n` jobs in the order of the jobs, from the results with their numbers
    in the order in which the jobs were finished. -/
def gather {α : Type} (n : Nat) (finished : List (Nat × α)) : List α :=
  (finished.foldl (fun slots (i, result) => slots.set i (some result))
    (List.replicate n none)).filterMap id

/-- The documents and the failures of attempts.  If documents must have distinct names,
    only the first with a name is kept.  `written` holds the names so far with their
    templates. -/
def collect (distinct : Bool) :
    (written : List (String × String)) → List Attempt → List Files.Document × Failures
  | _, [] => ([], [])
  | written, t :: rest =>
    match t.result with
    | .error failure =>
      let (documents, failures) := collect distinct written rest
      (documents, .context t.source failure :: failures)
    | .ok d =>
      match distinct, written.lookup d.path with
      | true, some first =>
        let (documents, failures) := collect distinct written rest
        (documents, .context t.source (.cause (.command (.outputTaken d.path first))) :: failures)
      | _, _ =>
        let (documents, failures) := collect distinct ((d.path, t.source) :: written) rest
        (d :: documents, failures)

/-! ## The command -/

/-- Translates one template. -/
def translateOne (l : Log.Logger) (format : Format) (path : String) : Unbounded Attempt := do
  match ← assembleFile l path with
  | .error failure => return ⟨path, .error failure⟩
  | .ok ir =>
    match (do return (← ir.fingerprint, ← format.encode ir) : Except Failure (UInt64 × String)) with
    | .error failure => return ⟨path, .error failure⟩
    | .ok (h, text) =>
      log l .info "translated" [.fingerprint h, .count "resources" (Ir.count ir.resources)]
      return ⟨path, .ok (.text (outputName path format) (Text.Utf8.encode text))⟩

/-- Prints documents until one does not fit. -/
def printDocuments : List Files.Document → Run (Option Failure)
  | [] => pure none
  | d :: rest => do
    match d.bytes (← get).files with
    | .error fault => return some (.cause (.file fault))
    | .ok bytes =>
      match ← printAll bytes with
      | some failure => return some failure
      | none => printDocuments rest

/-- Prints documents, or writes them below a directory. -/
def deliver (l : Log.Logger) (directory : String) (documents : List Files.Document) :
    Run (Option Failure) := do
  if directory = "" then
    printDocuments documents
  else
    let written := Files.writeDocuments (← get).files documents directory
    modify fun s => { s with files := written.files }
    log l .debug "wrote output" [.text "dir" directory, .count "files" documents.length,
      .count "bytes" written.total]
    return Failures.toFailure? written.failures

/-- Puts the results of `n` templates, numbered and in the order in which they were finished,
    back into the order of the templates, and delivers the documents. -/
def conclude (l : Log.Logger) (directory : String) (n : Nat) (finished : List (Nat × Attempt)) :
    Run (Option Failure) := do
  let attempts := gather n finished
  log l .info "translation finished" [
    .count "translated" (attempts.filter fun t => t.result.isOk).length,
    .count "templates" n]
  let (documents, failures) := collect (directory ≠ "") [] attempts
  let failure ← deliver l directory documents
  return Failures.toFailure? (Failures.add failures failure)

/-- Translates templates. -/
def runTranslate (l : Log.Logger) (values : Values) (args : List String) :
    Unbounded (Option Failure) := do
  let templates := values.texts templatesFlag.name ++ args
  let format := values.text formatFlag
  let directory := values.text outputDirectoryFlag
  if templates.isEmpty then
    return some (.cause (.command .noTemplates))
  match Format.ofName? format with
  | none => return some (.cause (.command (.unknownFormat format)))
  | some format =>
    let l := l.named "cli"
    let finished ← templates.zipIdx.mapM fun (path, i) => do
      return (i, ← translateOne (l.withFields [.template path]) format path)
    conclude l directory templates.length finished

end StackIr.Command

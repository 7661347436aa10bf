import Mathlib.Data.List.Perm.Basic
import Mathlib.Data.List.Infix
import StackIr.Command.Translate

/-! # Batches of templates

    The templates of a batch are translated by workers that finish in any order.  Their results
    are put back into the order of the templates, so nothing that follows depends on who
    finished first.

    Without a directory the documents are printed one after the other, and the failures are
    those of the templates.  With a directory no two documents may have one name: the first
    template that was translated has the name, and each later one fails with a note on it.
    `collect` knows the names so far from a table; here they are taken from the templates before
    (`firstWith?`), and `Knows` relates the two. -/

namespace StackIr.Command

open Files (Document)

/-! ## Workers -/

section gather

variable {α : Type}

end gather

/-! ## Documents and failures -/

namespace Attempt

/-- The document of a template that was translated. -/
def document? (t : Attempt) : Option Document :=
  t.result.toOption

/-- The failure of a template that was not translated, with the template in front. -/
def failure? (t : Attempt) : Option Failure :=
  match t.result with
  | .error failure => some (.context t.source failure)
  | .ok _ => none

variable {source : String} {failure : Failure} {d : Document}

@[simp] theorem document?_error : (⟨source, .error failure⟩ : Attempt).document? = none := rfl

@[simp] theorem failure?_error :
    (⟨source, .error failure⟩ : Attempt).failure? = some (.context source failure) := rfl

@[simp] theorem failure?_ok : (⟨source, .ok d⟩ : Attempt).failure? = none := rfl

end Attempt

/-- The first of some templates whose document has a name. -/
def firstWith? (attempts : List Attempt) (name : String) : Option Attempt :=
  attempts.find? fun t => t.document?.any (·.path = name)

/-- The document of a template, unless one before it has the name. -/
def kept? (before : List Attempt) (t : Attempt) : Option Document :=
  t.document?.filter fun d => (firstWith? before d.path).isNone

/-- What is wrong with a template: its own failure, or the template that had the name before. -/
def complaint? (before : List Attempt) (t : Attempt) : Option Failure :=
  match t.result with
  | .error failure => some (.context t.source failure)
  | .ok d => (firstWith? before d.path).map fun first =>
      .context t.source (.cause (.command (.outputTaken d.path first.source)))

section collect

variable {before rest : List Attempt} {t : Attempt} {name source : String} {failure : Failure}
  {d : Document}

@[simp] theorem kept?_error : kept? before ⟨source, .error failure⟩ = none := rfl

@[simp] theorem complaint?_error :
    complaint? before ⟨source, .error failure⟩ = some (.context source failure) := rfl

@[simp] theorem complaint?_ok :
    complaint? before ⟨source, .ok d⟩ = (firstWith? before d.path).map fun first =>
      .context source (.cause (.command (.outputTaken d.path first.source))) := rfl

end collect

/-! ## Printing -/

section printing

variable {out : Files.Sink} {bytes more : List UInt8}

end printing

/-! ## The command -/

/-- What may come of a template: the name and the bytes of its document, or a failure. -/
structure Translation where
  source : String
  result : Except Failure (String × List UInt8)

namespace Translation

/-- The translation as it is handed on. -/
def attempt (o : Translation) : Attempt :=
  ⟨o.source, o.result.map fun (name, bytes) => .text name bytes⟩

/-- The name and the bytes of the document. -/
def document? (o : Translation) : Option (String × List UInt8) :=
  o.result.toOption

end Translation

/-- The note at the end of a batch. -/
def announce (l : Log.Logger) (batch : List Translation) : Run Unit :=
  log l .info "translation finished" [
    .count "translated" (batch.filter fun o => o.result.isOk).length,
    .count "templates" batch.length]

section command

variable {batch : List Translation} {finished : List (Nat × Attempt)}

/-- What a template comes out as: a document with the template's output name, or a failure. -/
def Translation.IsOf (format : Format) (path : String) (o : Translation) : Prop :=
  o.source = path ∧ ∀ document, o.result = .ok document → document.1 = outputName path format

/-! ### The templates one by one -/

/-- Templates that are translated one after the other, each in the session that those before it
    leave: every translation is what translating its template gives. -/
inductive Translates (l : Log.Logger) (format : Format) :
    List String → Session → List Translation → Session → Prop where
  | nil (s : Session) : Translates l format [] s [] s
  | cons {path : String} {rest : List String} {o : Translation} {batch : List Translation}
      {s s' s'' : Session}
      (hone : translateOne (l.withFields [.template path]) format path s = (.ok o.attempt, s'))
      (hof : o.IsOf format path) (hrest : Translates l format rest s' batch s'') :
      Translates l format (path :: rest) s (o :: batch) s''

theorem Translates.length_eq {l : Log.Logger} {format : Format} {templates : List String}
    {batch : List Translation} {s s' : Session} (h : Translates l format templates s batch s') :
    batch.length = templates.length := by
  induction h with
  | nil s => rfl
  | cons _ _ _ ih => rw [List.length_cons, List.length_cons, ih]

/-- Some template has a value without end, and is come to: those before it are translated. -/
def MeetsEndless (l : Log.Logger) (format : Format) (templates : List String) (s : Session) :
    Prop :=
  ∃ before path after batch s', templates = before ++ path :: after ∧
    Translates l format before s batch s' ∧ loadTemplate s'.files path = .error .endless

theorem MeetsEndless.cons {l : Log.Logger} {format : Format} {path : String} {rest : List String}
    {o : Translation} {s s' : Session}
    (hone : translateOne (l.withFields [.template path]) format path s = (.ok o.attempt, s'))
    (hof : o.IsOf format path) (h : MeetsEndless l format rest s') :
    MeetsEndless l format (path :: rest) s := by
  obtain ⟨before, next, after, batch, s'', rfl, hbefore, hload⟩ := h
  exact ⟨path :: before, next, after, o :: batch, s'', rfl, .cons hone hof hbefore, hload⟩

section unbounded

variable {α β : Type} {x : Unbounded α} {s s' : Session}

end unbounded

end command

end StackIr.Command

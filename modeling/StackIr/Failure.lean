import StackIr.Command.Fault
import StackIr.Files.Fault
import StackIr.Ir.Fault
import StackIr.Template.Fault
import StackIr.Yaml.Encoding

/-! # Failures

    A failure is a cause, a failure with a note on what was being done, or several failures
    that happened independently.  Its message is built from the notes outward. -/

namespace StackIr

/-- What went wrong at the bottom of a failure. -/
inductive Cause where
  | other (text : String)
  | document (fault : Yaml.Fault)
  | template (fault : Template.Fault)
  | assembly (fault : Ir.Fault)
  | file (fault : Files.Fault)
  | command (fault : Command.Fault)
  /-- An output that takes no more. -/
  | full
  /-- A document that has no text. -/
  | encoding (refusal : Json.Refusal)
  deriving DecidableEq, Repr

def Cause.message : Cause → String
  | .other text => text
  | .document fault => fault.message
  | .template fault => fault.message
  | .assembly fault => fault.message
  | .file fault => fault.message
  | .command fault => fault.message
  | .full => "writer is full"
  | .encoding refusal => refusal.message

/-- A failure. -/
inductive Failure where
  | cause (c : Cause)
  | context (note : String) (inner : Failure)
  | several (members : List Failure)
  deriving Repr

namespace Failure

def other (text : String) : Failure :=
  .cause (.other text)

def assembly (fault : Ir.Fault) : Failure :=
  .cause (.assembly fault)

/-- A text whose further lines are set below a bullet. -/
def hang (s : String) : String :=
  String.ofList (s.toList.flatMap fun c => if c = '\n' then ['\n', '\t', ' ', ' '] else [c])

/-- The message of several failures from theirs. -/
def severalMessage : List String → String
  | [] => "<nil>"
  | [m] => m
  | ms =>
    Nat.repr ms.length ++ " errors occurred:" ++
      String.join (ms.map fun m => "\n\t* " ++ hang m)

mutual

def message : Failure → String
  | .cause c => c.message
  | .context note inner => note ++ ": " ++ inner.message
  | .several members => severalMessage (messages members)

/-- The message of each of several failures. -/
def messages : List Failure → List String
  | [] => []
  | f :: fs => f.message :: messages fs

end

mutual

/-- The causes of a failure from left to right. -/
def causes : Failure → List Cause
  | .cause c => [c]
  | .context _ inner => inner.causes
  | .several members => causesOf members

/-- The causes of several failures from left to right. -/
def causesOf : List Failure → List Cause
  | [] => []
  | f :: fs => f.causes ++ causesOf fs

end

/-- The first unclosed placeholder among the causes. -/
def unterminated? (f : Failure) : Option Substitution.Unterminated :=
  f.causes.findSome? fun
    | .assembly (.unterminated u) => some u
    | _ => none

/-- The first invalid resource type among the causes. -/
def invalidType? (f : Failure) : Option String :=
  f.causes.findSome? fun
    | .assembly (.invalidType type) => some type
    | _ => none

/-- The first unresolved reference among the causes. -/
def unresolved? (f : Failure) : Option Unresolved :=
  f.causes.findSome? fun
    | .assembly (.unresolved use) => some use
    | _ => none

/-- The first dependency cycle among the causes: dependency and dependent. -/
def cycle? (f : Failure) : Option (String × String) :=
  f.causes.findSome? fun
    | .assembly (.cycle dependency dependent) => some (dependency, dependent)
    | _ => none

/-- The first fault of a file among the causes. -/
def file? (f : Failure) : Option Files.Fault :=
  f.causes.findSome? fun
    | .file fault => some fault
    | _ => none

/-- Whether a cause with only the given text is among the causes. -/
def mentions (f : Failure) (text : String) : Bool :=
  f.causes.any (· = .other text)

mutual

/-- The same failure with other causes. -/
def mapCauses (g : Cause → Cause) : Failure → Failure
  | .cause c => .cause (g c)
  | .context note inner => .context note (inner.mapCauses g)
  | .several members => .several (mapCausesOf g members)

def mapCausesOf (g : Cause → Cause) : List Failure → List Failure
  | [] => []
  | f :: fs => f.mapCauses g :: mapCausesOf g fs

end

end Failure

/-! ## Collecting failures -/

/-- Failures collected in order. -/
abbrev Failures := List Failure

namespace Failures

def message (fs : Failures) : String :=
  (Failure.several fs).message

/-- No failure, the only one, or all of them together. -/
def toFailure? : Failures → Option Failure
  | [] => none
  | [f] => some f
  | fs => some (.several fs)

/-- Adds a failure, if there is one. -/
def add (fs : Failures) (f? : Option Failure) : Failures :=
  fs ++ f?.toList

/-- Adds a failure to a collection that may be absent, and then stays so. -/
def addTo? (fs? : Option Failures) (f? : Option Failure) : Option Failures :=
  fs?.map (add · f?)

/-- Puts one failure after another.  Several failures are extended, not nested. -/
def append : Option Failure → Option Failure → Failures
  | none, none => []
  | none, some g => [g]
  | some f, none => [f]
  | some (.several fs), some g => fs ++ [g]
  | some f, some g => [f, g]

end Failures

/-- Adds a note to the failure of a computation. -/
def noting {α : Type} (note : String) (x : Except Failure α) : Except Failure α :=
  x.mapError (.context note)

/-! ## Computations without end -/

/-- Why a computation has no result: it fails, or it does not come to an end. -/
inductive Stop where
  | failed (failure : Failure)
  | endless
  deriving Repr

namespace Stop

/-- Adds a note to a failure. -/
def context (note : String) : Stop → Stop
  | .failed failure => .failed (.context note failure)
  | .endless => .endless

/-- Adds a note to the failure of a computation, if it comes to one. -/
def noting {α : Type} (note : String) (x : Except Stop α) : Except Stop α :=
  x.mapError (.context note)

end Stop

end StackIr
